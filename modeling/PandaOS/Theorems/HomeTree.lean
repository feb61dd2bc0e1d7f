import Mathlib.Data.List.Find
import PandaOS.Logic.HomeTree
import PandaOS.Theorems.HomeBlocks

/-!
# The directory tree of the home file system

`create` writes the root's dots to sector 35, where no reader looks for them: the
root's slot 35 leads to sector 70, whose block is never marked. On a device that
happens to hold the dots there, the entries stay a tree as long as that block is
not handed out, no dot is renamed or removed, and no directory moves to another
one, which would leave its `..` behind.
-/

namespace PandaOS.Kernel.HomeFs

open Lib Function Relation View

variable {debug : Bool} {fs : HomeFs} {α : Type} {d c n mode t parent : Nat} {v v' : View}
  {name : Str} {p : Nat × Nat} {S : HomeFs → Prop} {e : DirEntry}

theorem isDirectory_iff : fs.IsDirectory d ↔ (view fs).Dir 0 d := by
  unfold IsDirectory Allocated Dir Node
  constructor
  · rintro ⟨⟨hlo, hhi, hbit⟩, htype⟩
    refine ⟨⟨⟨hlo, hhi⟩, hbit, by omega⟩, ?_⟩
    rw [view_inode hlo (by omega)]
    exact htype
  · rintro ⟨⟨⟨hlo, hhi⟩, hbit, -⟩, htype⟩
    rw [view_inode hlo (by omega)] at htype
    exact ⟨⟨hlo, hhi, hbit⟩, htype⟩

/-! ## Room before the root's block -/

theorem mem_freeBeforeRoot : c ∈ (List.range 35).filter (fun b => !bitSet fs.blockBitmap b) ↔
      c < 35 ∧ (view fs).marked c = false := by
  rw [List.mem_filter, List.mem_range, Bool.not_eq_true']
  rfl

theorem exists_free (h : 1 ≤ fs.freeBeforeRoot) : ∃ c < 35, (view fs).marked c = false := by
  obtain ⟨c, hc⟩ := List.exists_mem_of_length_pos h
  exact ⟨c, mem_freeBeforeRoot.mp hc⟩

/-- Room for a second block. -/
theorem exists_free_ne (h : 2 ≤ fs.freeBeforeRoot) (b : Nat) :
    ∃ c < 35, c ≠ b ∧ (view fs).marked c = false := by
  have hnodup := (List.nodup_range (n := 35)).filter fun b => !bitSet fs.blockBitmap b
  have hmem : ∀ c ∈ (List.range 35).filter (fun b => !bitSet fs.blockBitmap b),
      c < 35 ∧ (view fs).marked c = false := fun _ => mem_freeBeforeRoot.mp
  unfold freeBeforeRoot at h
  revert h hnodup hmem
  cases (List.range 35).filter fun b => !bitSet fs.blockBitmap b with
  | nil => simp
  | cons c rest =>
    cases rest with
    | nil => simp
    | cons c' rest =>
      intro _ hnodup hmem
      obtain ⟨hc, hfree⟩ := hmem c (by simp)
      obtain ⟨hc', hfree'⟩ := hmem c' (by simp)
      have hne : c ≠ c' := fun heq => (List.nodup_cons.mp hnodup).1 (heq ▸ List.mem_cons_self)
      by_cases hcb : c = b
      · exact ⟨c', hc', fun heq => hne (hcb.trans heq.symm), hfree'⟩
      · exact ⟨c, hc, hcb, hfree⟩

/-! ## Undoing -/

theorem rollback_ends {x : HomeM Unit} (hx : Ends x fs (fun _ => S) fun e _ => e = .panic) :
    Ends (rollback x) fs (fun _ => S) fun e _ => e = .panic := by
  unfold rollback
  rw [ends_tryCatch]
  refine hx.mono (fun _ _ h => h) ?_
  rintro e fs' rfl
  exact rfl

/-- The call leaves `P`, unless it panics. -/
abbrev Leaves (P : HomeFs → Prop) (x : HomeM α) (fs : HomeFs) : Prop :=
  Ends x fs (fun _ => P) fun e fs' => e = .panic ∨ P fs'

/-- What is left after a failure is what the undoing leaves. -/
theorem orUndo_ends {x : HomeM α} {undo : HomeM Unit} {Q : α → HomeFs → Prop}
    (hx : Ends x fs Q fun e fs' => e = .panic ∨ Ends undo fs' (fun _ => S) fun e _ => e = .panic) :
    Ends (orUndo x undo) fs Q fun e fs' => e = .panic ∨ S fs' := by
  unfold orUndo
  rw [ends_tryCatch]
  refine hx.mono (fun _ _ h => h) fun e fs' he => ?_
  cases e with
  | panic => exact .inl rfl
  | err e =>
    have hundo := he.resolve_left (by simp)
    simp only [ends_bind, ends_throw]
    exact hundo.mono (fun _ _ h => .inr h) fun _ _ h => .inl h

/-! ## Creating -/

/-- The record keeps the low 16 bits of the mode. -/
theorem encode_mode (r : HomeInode) :
    r.encode = ({ r with mode := r.mode % 256 ^ 2 } : HomeInode).encode := by
  unfold HomeInode.encode
  rw [fieldBytes_mod]

theorem writeInode_mode (r : HomeInode) :
    writeInode r = writeInode { r with mode := r.mode % 256 ^ 2 } := by
  unfold writeInode
  rw [encode_mode]

/-- What the nodes are made of stays when an unused inode `n` is prepared. -/
theorem agrees_alloc (hunused : v.used n = false) (hfirst : v'.firstDataBlock = v.firstDataBlock)
    (hroot : v'.rootInode = v.rootInode) (hused : v'.used = update v.used n true)
    (hinode : ∀ i, i ≠ n → v'.inode i = v.inode i)
    (hentry : ∀ i, v.Node 0 i → ∀ b ∈ v.slots i, v'.entry b = v.entry b)
    (hmarked : ∀ b, v.marked b = true → v'.marked b = true) : Agrees v v' 0 n := by
  have hne : ∀ i, v.Node 0 i → i ≠ n := by
    rintro i hi rfl
    cases hunused.symm.trans hi.2.1
  refine ⟨hfirst, hroot, fun i => ?_, fun i hi => hinode i (hne i hi),
    hentry, fun _ _ b _ => hmarked b, hmarked 0⟩
  unfold Node
  rw [hused]
  constructor
  · rintro ⟨hrange, hbit, hin⟩
    rw [update_of_ne hin] at hbit
    exact ⟨hrange, hbit, by omega⟩
  · intro hi
    have hin := hne i hi
    exact ⟨hi.1, (update_of_ne hin _ _).trans hi.2.1, hin⟩

/-- And when an inode without an entry is given back. -/
theorem agrees_free (hfirst : v'.firstDataBlock = v.firstDataBlock)
    (hroot : v'.rootInode = v.rootInode)
    (hused : v'.used = update v.used n false) (hinode : v'.inode = v.inode)
    (hentry : v'.entry = v.entry)
    (hmarked : ∀ i, v.Node n i → ∀ b ∈ v.slots i, v.marked b = true → v'.marked b = true)
    (hzero : v.marked 0 = true → v'.marked 0 = true) : Agrees v v' n 0 := by
  refine ⟨hfirst, hroot, fun i => ?_, fun i _ => by rw [hinode],
    fun _ _ _ _ => by rw [hentry], hmarked, hzero⟩
  unfold Node
  rw [hused]
  constructor
  · rintro ⟨hrange, hbit, -⟩
    have hin : i ≠ n := by
      rintro rfl
      rw [update_self] at hbit
      cases hbit
    rw [update_of_ne hin] at hbit
    exact ⟨hrange, hbit, hin⟩
  · rintro ⟨hrange, hbit, hin⟩
    exact ⟨hrange, (update_of_ne hin _ _).trans hbit, by omega⟩

theorem not_isDot_of_bytes {name : List Byte} (hbytes : e.bytes = name)
    (hname : name ≠ dotName ∧ name ≠ dotDotName) : ¬e.IsDot := by
  rintro (h | h)
  · exact hname.1 (hbytes.symm.trans h)
  · exact hname.2 (hbytes.symm.trans h)

/-- A name that is not found is none of the dots. -/
theorem not_dot_of_find (hs : Shape v n) (hd : v.Dir n d) {name : List Byte}
    (h : v.find d name = none) : name ≠ dotName ∧ name ≠ dotDotName := by
  obtain ⟨⟨p, hp, hlive, hname⟩, -⟩ := hs.dot d hd
  obtain ⟨⟨q, hq, hlive', hname'⟩, -⟩ := hs.dot_dot d hd
  exact ⟨fun heq => find_eq_none h hp hlive (hname.trans heq.symm),
    fun heq => find_eq_none h hq hlive' (hname'.trans heq.symm)⟩

theorem named_readable (c t : Nat) (h : name.bytes.length ≤ maxFilenameLen) :
    (DirEntry.named c name.bytes t).Readable where
  short := h
  valid := by
    rw [DirEntry.bytes_named]
    exact name.valid

/-- The end of both creations: the prepared inode gets its entry, or is given back. -/
theorem addDirEntry_sound (hs : Sound (view fs) n) (hd : (view fs).Dir n d)
    (hr : Ready (view fs) n d) (ht : t < 256) (hbefore : ∃ c < 35, (view fs).marked c = false) :
    Ends (addDirEntry debug d name n t) fs (fun _ fs' => Sound (view fs') 0)
      fun e fs' => e = .panic ∨ view fs' = view fs := by
  have hn : n < 256 ^ 4 := by
    have := hr.range
    unfold maxInodes at this
    omega
  refine (addDirEntry_ends hs.first (hs.directory d hd) hn ht).imp ?_
  rintro _ fs' ⟨hfind, hshort, w, p, hroom, hview⟩
  obtain ⟨hsw, hdw, hp, hdead⟩ := hs.room hd hroom hbefore
  rw [hview]
  refine hsw.attach (hr.room hs.toShape hd hroom) hdw hp hdead rfl (named_readable n t hshort) ?_
  exact not_isDot_of_bytes (DirEntry.bytes_named ..) (not_dot_of_find hs.toShape hd hfind)

/-- The record of a new inode. -/
def newRecord (n fileType mode size : Nat) (slots : List Nat) : HomeInode where
  inodeNum := n
  fileType := fileType
  mode := mode
  uid := 0
  gid := 0
  linkCount := 1
  size := size
  blocksUsed := slots.length
  directBlocks := slots ++ List.replicate (maxDirectBlocks - slots.length) 0

theorem newRecord_fits {fileType size : Nat} {slots : List Nat}
    (hn : n < maxInodes) (htype : fileType < 256)
    (hmode : mode < 256 ^ 2) (hsize : size < 256 ^ 4) (hlen : slots.length ≤ maxDirectBlocks)
    (hslots : ∀ b ∈ slots, b < maxDataBlocks) :
    (newRecord n fileType mode size slots).Fits := by
  unfold maxInodes at hn
  unfold maxDirectBlocks at hlen
  refine ⟨?_, ?_, hmode, Nat.zero_lt_succ _, Nat.zero_lt_succ _,
    (by decide : 1 < 256 ^ 2), hsize, ?_, ?_, ?_⟩
  · show n < 256 ^ 4
    omega
  · show fileType < 256 ^ 4
    omega
  · show slots.length < 256 ^ 4
    omega
  · show (slots ++ List.replicate (maxDirectBlocks - slots.length) 0).length = maxDirectBlocks
    rw [List.length_append, List.length_replicate]
    unfold maxDirectBlocks
    omega
  · intro b hb
    rcases List.mem_append.mp hb with hb | hb
    · have := hslots b hb
      unfold maxDataBlocks totalSectors at this
      omega
    · rw [List.eq_of_mem_replicate hb]
      decide

theorem newFile_fits (hn : n < maxInodes) (hmode : mode < 256 ^ 2) :
    (newRecord n typeFile mode 0 []).Fits :=
  newRecord_fits hn (by decide) hmode (by decide) (by decide) (by simp)

theorem newDirectory_fits {b : Nat} (hn : n < maxInodes) (hmode : mode < 256 ^ 2)
    (hb : b < maxDataBlocks) : (newRecord n typeDirectory mode blockSize [b]).Fits :=
  newRecord_fits hn (by decide) hmode (by decide) (show 1 ≤ maxDirectBlocks by decide)
    (by simpa using hb)

theorem usedSlots_newRecord (n fileType mode size : Nat) (slots : List Nat) :
    usedSlots (newRecord n fileType mode size slots) = slots := by
  show (slots ++ List.replicate _ 0).take slots.length = slots
  rw [List.take_append_of_le_length (Nat.le_refl _), List.take_length]

/-- Giving the inode back. -/
theorem rollback_freeInode (hs : Sound (view fs) n) (hrange : 0 < n ∧ n < maxInodes)
    (hused : (view fs).used n = true) :
    Ends (rollback (freeInode debug n)) fs (fun _ fs' => Sound (view fs') 0) fun e _ => e =
      .panic := by
  refine rollback_ends ((freeInode_ends hrange.1 hrange.2 hused).imp (fun _ fs' hview => ?_))
  have hagrees : Agrees (view fs) (view fs') n 0 := by
    rw [hview]
    exact agrees_free rfl rfl rfl rfl rfl (fun _ _ _ _ h => h) fun h => h
  exact hagrees.sound hs

/-- A failure that changes nothing. -/
theorem sound_of_unchanged (hs : Sound (view fs) 0) (e : HomeFault) (fs' : HomeFs)
    (h : e = .panic ∨ view fs' = view fs) : e = .panic ∨ Sound (view fs') 0 := by
  rcases h with h | hview
  · exact .inl h
  · rw [hview]
    exact .inr hs

theorem createFile_sound {dir : Nat} (hs : Sound (view fs) 0) (hd : (view fs).Dir 0 dir)
    (hbefore : ∃ c < 35, (view fs).marked c = false) :
    Leaves (·.view.Sound 0) (createFile debug dir name mode) fs := by
  unfold Leaves createFile
  refine allocateInode_ends.bind ?_ (sound_of_unchanged hs)
  rintro n fs1 ⟨hrange, hunused, hview1⟩
  have hfits := newFile_fits hrange.2 (Nat.mod_lt mode (by decide))
  rw [ends_bind, writeInode_mode]
  refine (writeInode_ends (r := newRecord n typeFile (mode % 256 ^ 2) 0 []) hfits hrange.1
    hrange.2.le).imp (fun _ fs2 hview2 => ?_)
  rw [hview1] at hview2
  have hagrees : Agrees (view fs) (view fs2) 0 n := by
    rw [hview2]
    exact agrees_alloc hunused rfl rfl rfl (fun i hi => update_of_ne hi _ _) (fun _ _ _ _ => rfl)
      fun _ h => h
  have hs2 := hagrees.sound hs
  have hinode : (view fs2).inode n = newRecord n typeFile (mode % 256 ^ 2) 0 [] := by
    rw [hview2]
    exact update_self ..
  have hslots : (view fs2).slots n = [] := by
    unfold View.slots
    rw [hinode]
    exact usedSlots_newRecord ..
  have hfile : ((view fs2).inode n).fileType ≠ typeDirectory := by
    rw [hinode]
    exact (by decide : typeFile ≠ typeDirectory)
  -- an empty file has no blocks, and what is asked of directories does not apply
  have hready : Ready (view fs2) n dir := by
    refine ⟨hrange, ?_, fun h => absurd h hfile,
      fun _ => hslots, by simp [hslots], by simp [hslots],
      by simp [hslots], fun h => absurd h hfile,
        fun h => absurd h hfile, by simp [View.places, hslots, places]⟩
    rw [hview2]
    exact update_self ..
  rw [ends_bind]
  refine orUndo_ends ((addDirEntry_sound hs2 (hagrees.dir.mpr hd) hready (by decide) ?_).mono
    (fun _ _ h => h) fun e fs3 he => he.imp id fun hview3 => ?_)
  · rw [hview2]
    exact hbefore
  · rw [← hview3] at hs2 hready
    exact rollback_freeInode hs2 hready.range hready.used

theorem dotBlock_decode (hn : n < 256 ^ 4) (hd : d < 256 ^ 4) :
    DirEntry.decode (dotBlock n d) (0 * dirEntrySize) = DirEntry.named n dotName typeDirectory ∧
      DirEntry.decode (dotBlock n d) (1 * dirEntrySize) =
        DirEntry.named d dotDotName typeDirectory := by
  have hdot : (DirEntry.named n dotName typeDirectory).Fits :=
    DirEntry.named_fits hn (by decide) (by decide)
  have hdotdot : (DirEntry.named d dotDotName typeDirectory).Fits :=
    DirEntry.named_fits hd (by decide) (by decide)
  refine ⟨?_, ?_⟩
  · refine .trans (DirEntry.decode_keep fun a hlo hhi => ?_)
      (DirEntry.decode_of_holds hdot (holds_storeAt zeroSector 0 _))
    exact storeAt_outside (.inl (by unfold dirEntrySize at *; omega))
  · exact DirEntry.decode_of_holds hdotdot (holds_storeAt _ _ _)

/-- The view when a new directory waits for its entry. -/
def withDirectory (v : View) (n parent b mode : Nat) : View :=
  { v with
    used := update v.used n true
    marked := update v.marked b true
    inode := update v.inode n (newRecord n typeDirectory mode blockSize [b])
    entry := update v.entry b fun j => DirEntry.decode (dotBlock n parent) (j * dirEntrySize) }

section

variable {v : View} {n parent b mode : Nat} (hs : Sound v 0) (hrange : 0 < n ∧ n < maxInodes)
  (hunused : v.used n = false) (hb : b < maxDataBlocks) (hclear : v.marked b = false)
    (hroot : b ≠ 35)
include hs hunused hclear hroot

theorem withDirectory_agrees : Agrees v (withDirectory v n parent b mode) 0 n := by
  refine agrees_alloc hunused rfl rfl rfl (fun i hi => update_of_ne hi _ _) (fun i hi c hc => ?_)
    fun c hc => ?_
  · refine update_of_ne ?_ _ _
    rintro rfl
    exact hs.fresh hclear hroot hi hc
  · by_cases hcb : c = b
    · subst hcb
      exact update_self ..
    · exact (update_of_ne hcb _ _).trans hc

omit hs hunused hclear hroot in
theorem withDirectory_slots : (withDirectory v n parent b mode).slots n = [b] := by
  unfold View.slots
  rw [show (withDirectory v n parent b mode).inode n =
    newRecord n typeDirectory mode blockSize [b] from update_self ..]
  exact usedSlots_newRecord ..

include hrange hb in
theorem withDirectory_ready (hd : v.Dir 0 parent) (hmode : mode < 256 ^ 2) :
    Ready (withDirectory v n parent b mode) n parent := by
  have hagrees : Agrees v (withDirectory v n parent b mode) 0 n :=
    withDirectory_agrees hs hunused hclear hroot
  have hinode : (withDirectory v n parent b mode).inode n =
      newRecord n typeDirectory mode blockSize [b] :=
    update_self ..
  have hslots : (withDirectory v n parent b mode).slots n = [b] := withDirectory_slots
  have hnum : n < 256 ^ 4 ∧ parent < 256 ^ 4 := by
    have hparent := hd.1.1
    unfold maxInodes at hrange hparent
    omega
  obtain ⟨hfirst, hsecond⟩ := dotBlock_decode hnum.1 hnum.2
  have hat0 : (withDirectory v n parent b mode).at? (b, 0) =
      DirEntry.named n dotName typeDirectory :=
    (congrFun (update_self b _ v.entry) 0).trans hfirst
  have hat1 : (withDirectory v n parent b mode).at? (b, 1) =
      DirEntry.named parent dotDotName typeDirectory :=
    (congrFun (update_self b _ v.entry) 1).trans hsecond
  have hplaces : (withDirectory v n parent b mode).places n = [(b, 0), (b, 1)] := by
    unfold View.places
    rw [hslots]
    rfl
  have hzero : b ≠ 0 := by
    rintro rfl
    cases hclear.symm.trans hs.zero
  have hlive : n ≠ 0 ∧ parent ≠ 0 := ⟨by omega, by have := hd.1.1; omega⟩
  have hdots : ∀ c (name : List Byte), (DirEntry.named c name typeDirectory).bytes = name :=
    fun _ _ => DirEntry.bytes_named ..
  -- what `Ready` asks of the record, of its block and of the entries `.` and `..`
  refine ⟨hrange, update_self .., fun _ => ?_, fun h => absurd (hinode ▸ rfl) h,
    ?_, ?_, ?_, fun _ => ?_, fun _ => ?_, ?_⟩
  · refine ⟨hrange.1, hrange.2.le, hinode ▸ rfl, hinode ▸ rfl, hinode ▸ ?_, hinode ▸ ?_, ?_, ?_⟩
    · exact newDirectory_fits hrange.2 hmode hb
    · exact (show 1 ≤ maxDirectBlocks by decide)
    · rw [hslots]
      simpa using ⟨hb, hzero⟩
    · rw [hplaces]
      simp only [List.forall_mem_cons, hat0, hat1]
      refine ⟨fun _ => ⟨(by decide : 1 ≤ maxFilenameLen), ?_⟩,
        fun _ => ⟨(by decide : 2 ≤ maxFilenameLen), ?_⟩, by simp⟩
      · rw [hdots]
        decide
      · rw [hdots]
        decide
  · rw [hslots]
    simpa using ⟨show update v.marked b true b = true from update_self .., hroot⟩
  · rw [hslots]
    exact List.nodup_singleton b
  · intro i c hi hc hmem
    have hnode := (hagrees.node i).mp hi
    rw [(hagrees.same hnode).slots] at hc
    rw [hslots, List.mem_singleton] at hmem
    rw [hmem] at hc
    exact hs.fresh hclear hroot hnode hc
  · refine ⟨⟨(b, 0), by simp [hplaces], ?_⟩, ?_⟩
    · rw [hat0]
      exact ⟨hlive.1, hdots ..⟩
    · rw [hplaces]
      simp only [List.forall_mem_cons, hat0, hat1, hdots]
      exact ⟨fun _ _ => rfl, fun _ h => absurd h (by decide), by simp⟩
  · refine ⟨⟨(b, 1), by simp [hplaces], ?_⟩, ?_⟩
    · rw [hat1]
      exact ⟨hlive.2, hdots ..⟩
    · rw [hplaces]
      simp only [List.forall_mem_cons, hat0, hat1, hdots]
      exact ⟨fun _ h => absurd h (by decide), fun _ _ => rfl, by simp⟩
  · rw [hplaces]
    simp only [List.forall_mem_cons, hat0, hat1]
    exact ⟨fun _ => .inl (hdots ..), fun _ => .inr (hdots ..), by simp⟩

end

theorem createDirectory_sound (hs : Sound (view fs) 0) (hd : (view fs).Dir 0 parent)
    (hbefore : ∀ b, ∃ c < 35, c ≠ b ∧ (view fs).marked c = false) :
    Leaves (·.view.Sound 0) (createDirectory debug parent name mode) fs := by
  unfold Leaves createDirectory
  refine allocateInode_ends.bind ?_ (sound_of_unchanged hs)
  rintro n fs1 ⟨hrange, hunused, hview1⟩
  have hagrees1 : Agrees (view fs) (view fs1) 0 n := by
    rw [hview1]
    exact agrees_alloc hunused rfl rfl rfl (fun _ _ => rfl) (fun _ _ _ _ => rfl) fun _ h => h
  have hused1 : (view fs1).used n = true := by
    rw [hview1]
    exact update_self ..
  refine .seq (orUndo_ends (S := fun fs' => Sound (view fs') 0)
    (allocateBlock_ends.mono (fun _ _ h => h) fun e fs2 he => he.imp id fun hview2 => ?_)) ?_
  · -- no block: the inode is given back
    exact rollback_freeInode (hview2.symm ▸ hagrees1.sound hs) hrange (hview2.symm ▸ hused1)
  · rintro b fs2 ⟨⟨hb, hclear, hleast⟩, hview2⟩
    rw [hview1] at hclear hleast
    have hroot : b ≠ 35 := by
      obtain ⟨c, hc, -, hfree⟩ := hbefore 35
      exact ne_rootBlock hleast ⟨c, hc, hfree⟩
    refine (blockSector_returns (by rw [hview2]; exact hagrees1.first.trans hs.first) hb).seq ?_
    refine (writeSector_returns (dataSector_lt hb) _).seq ?_
    rw [ends_bind, writeInode_mode]
    have hmode : mode % 256 ^ 2 < 256 ^ 2 := Nat.mod_lt _ (by decide)
    have hfits := newDirectory_fits hrange.2 hmode hb
    refine (writeInode_ends (r := newRecord n typeDirectory (mode % 256 ^ 2) blockSize [b]) hfits
      hrange.1 hrange.2.le).imp (fun _ fs3 hview3 => ?_)
    rw [view_putData, hview2, hview1] at hview3
    have hview3 : view fs3 = withDirectory (view fs) n parent b (mode % 256 ^ 2) := hview3
    have hagrees : Agrees (view fs) (view fs3) 0 n :=
      hview3 ▸ withDirectory_agrees hs hunused hclear hroot
    have hready : Ready (view fs3) n parent :=
      hview3 ▸ withDirectory_ready hs hrange hunused hb hclear hroot hd hmode
    have hs3 := hagrees.sound hs
    rw [ends_bind]
    refine orUndo_ends ((addDirEntry_sound hs3 (hagrees.dir.mpr hd) hready (by decide) ?_).mono
      (fun _ _ h => h) fun e fs4 he => he.imp id fun hview4 => ?_)
    · obtain ⟨c, hc, hcb, hfree⟩ := hbefore b
      refine ⟨c, hc, ?_⟩
      rw [hview3]
      exact (update_of_ne hcb _ _).trans hfree
    · -- the block and the inode are given back
      have hmem : b ∈ (view fs4).slots n := by
        rw [hview4, hview3, withDirectory_slots]
        exact List.mem_singleton_self b
      rw [← hview4] at hs3 hready
      refine .seq (rollback_ends (freeBlock_ends hb (hready.marked b hmem).1))
        (fun _ fs5 hview5 => ?_)
      have hagrees5 : Agrees (view fs4) (view fs5) n n := by
        rw [hview5]
        refine ⟨rfl, rfl, fun _ => .rfl, fun _ _ => rfl, fun _ _ _ _ => rfl,
          fun i hi c hc hm => ?_, fun hm => ?_⟩
        · refine (update_of_ne ?_ _ _).trans hm
          rintro rfl
          exact hready.apart i c hi hc hmem
        · refine (update_of_ne ?_ _ _).trans hm
          rintro rfl
          cases hclear.symm.trans hs.zero
      refine rollback_freeInode (hagrees5.sound hs3) hrange ?_
      rw [hview5]
      exact hready.used

/-! ## Removing -/

/-- The end of `unlink_file` and `rmdir`: a node without entries is given back and
its entry cleared. -/
theorem remove_sound (hs : Sound (view fs) 0) (hfind : (view fs).find d name.bytes = some p)
    (hlink : (view fs).link 0 d p = some c) (hleaf : ∀ q, (view fs).link 0 c q = none) :
    Leaves (·.view.Sound 0) (do
      freeBlocks debug (usedSlots ((view fs).inode c))
      freeInode debug c
      removeDirEntry debug d name) fs := by
  have hd := (link_eq_some.mp hlink).1
  have hc : (view fs).Node 0 c := (hs.tree.valid _ _ _ hlink).2
  have hroot : c ≠ 1 := fun heq => hs.tree.root_unlinked d p (heq ▸ hlink)
  have hslots : ∀ b ∈ (view fs).slots c, b < maxDataBlocks ∧ b ≠ 0 ∧ (view fs).marked b = true := by
    intro b hb
    have hdir : (view fs).Dir 0 c := by
      refine ⟨hc, ?_⟩
      by_contra hfile
      rw [hs.file c hc hfile] at hb
      cases hb
    obtain ⟨hlt, hzero⟩ := (hs.directory c hdir).slots b hb
    exact ⟨hlt, hzero, ((hs.marked c hc b hb).resolve_left fun h => hroot h.1).1⟩
  refine (freeBlocks_ends (hs.nodup c hc) hslots).bind (fun _ fs1 hview1 => ?_) fun _ _ h => .inl h
  refine (freeInode_ends hc.1.1 hc.1.2 (by rw [hview1]; exact hc.2.1)).bind (fun _ fs2 hview2 => ?_)
    fun _ _ h => .inl h
  rw [hview1] at hview2
  have hd2 : (view fs2).Directory d :=
    SameNode.directory ⟨by rw [hview2], fun _ _ => by rw [hview2]⟩ (hs.directory d hd)
  refine (removeDirEntry_ends (p := p) (by rw [hview2]; exact hs.first) hd2
    (by rw [hview2]; exact hfind)).mono (fun _ fs3 hview3 => ?_) fun _ _ h => h
  rw [hview2] at hview3
  have hagrees : Agrees ((view fs).put p DirEntry.empty) (view fs3) c 0 := by
    rw [hview3]
    refine agrees_free rfl rfl rfl rfl rfl (fun i hi b hb hm => ?_) fun hm => ?_
    · have hic : i ≠ c := hi.2.2
      have hout : b ∉ (view fs).slots c := fun hmem =>
        hic (hs.apart i c b ⟨hi.1, hi.2.1, by have := hi.1; omega⟩ hc hb hmem)
      exact (Bool.and_eq_true ..).mpr ⟨hm, by simpa using hout⟩
    · have hout : 0 ∉ (view fs).slots c := fun hmem => (hslots 0 hmem).2.1 rfl
      exact (Bool.and_eq_true ..).mpr ⟨hm, by simpa using hout⟩
  exact hagrees.sound (hs.detach hlink hleaf)

theorem unlinkFile_sound {dir : Nat} (hs : Sound (view fs) 0) (hd : (view fs).Dir 0 dir) :
    Leaves (·.view.Sound 0) (unlinkFile debug dir name) fs := by
  unfold Leaves unlinkFile
  refine (lookupInDir_ends hs.first (hs.directory dir hd)).bind ?_ ?_
  · rintro c fs' ⟨rfl, p, hfind, hinode⟩
    obtain ⟨hp, hlive, -⟩ := find_eq_some hfind
    obtain ⟨hnode, hdot⟩ := hs.entry_node hd hp hlive
    rw [hinode] at hnode hdot
    refine (readInode_returns hnode.1.1 hnode.1.2.le).seq ?_
    rw [ends_bind]
    refine ends_failIf (fun htype => ?_) (.inr hs)
    have hfile : ((view fs').inode c).fileType ≠ typeDirectory := by simpa using htype
    have hlink : (view fs').link 0 dir p = some c :=
      link_eq_some.mpr ⟨hd, hp, hlive, fun h => hfile (hdot h).2, hinode⟩
    exact remove_sound hs hfind hlink fun q => link_eq_none.mpr fun h => hfile h.1.2
  · rintro e fs' ⟨rfl, -, -⟩
    exact .inr hs

theorem rmdir_sound (hs : Sound (view fs) 0) (hd : (view fs).Dir 0 parent)
    (hname : name.bytes ≠ dotName ∧ name.bytes ≠ dotDotName) :
    Leaves (·.view.Sound 0) (rmdir debug parent name) fs := by
  unfold Leaves rmdir
  refine (lookupInDir_ends hs.first (hs.directory parent hd)).bind ?_ ?_
  · rintro c fs' ⟨rfl, p, hfind, hinode⟩
    obtain ⟨hp, hlive, hbytes⟩ := find_eq_some hfind
    have hdot := not_isDot_of_bytes hbytes hname
    have hlink : (view fs').link 0 parent p = some c :=
      link_eq_some.mpr ⟨hd, hp, hlive, hdot, hinode⟩
    have hnode := (hs.tree.valid _ _ _ hlink).2
    rw [ends_bind]
    unfold readDirectory
    refine (readInode_returns hnode.1.1 hnode.1.2.le).seq ?_
    rw [ends_bind]
    refine ends_failIf (fun htype => ?_) (.inr hs)
    have hdir : (view fs').Dir 0 c := ⟨hnode, by simpa using htype⟩
    rw [ends_pure]
    refine (count_ends hs.first (hs.directory c hdir)).seq ?_
    rintro r fs'' ⟨rfl, rfl⟩
    dsimp only
    rw [ends_bind]
    refine ends_failIf (fun hcount => ?_) (.inr hs)
    exact remove_sound hs hfind hlink (hs.leaf hdir (by simpa using hcount))
  · rintro e fs' ⟨rfl, -, -⟩
    exact .inr hs

/-! ## Renaming -/

/-- The place of a name stays where the first places of a directory answer alike. -/
theorem find_of_append {name : List Byte} {x : List (Nat × Nat)}
    (hplaces : v'.places d = v.places d ++ x)
    (hsame : ∀ r ∈ v.places d, v'.isNamed name r = v.isNamed name r)
    (hfind : v.find d name = some p) :
    v'.find d name = some p := by
  unfold View.find at *
  rw [hplaces, List.find?_append, List.find?_congr hsame, hfind]
  rfl

/-- The place of a name stays when another name gets an entry. -/
theorem find_room {w : View} {d' : Nat} {q : Nat × Nat} {old new : List Byte}
    (hs : Shape v 0) (hd : v.Dir 0 d)
    (hd' : v.Dir 0 d') (hfind : v.find d old = some p) (hfree : v.find d' new = none)
    (hroom : v.Room d' w q)
    (hbefore : ∃ c < 35, v.marked c = false) :
    (w.put q (DirEntry.named c new t)).find d old = some p := by
  have hnamed : ∀ (v v' : View) r, v'.at? r = v.at? r → v'.isNamed old r = v.isNamed old r := by
    intro v v' r hr
    unfold View.isNamed
    rw [hr]
  cases hroom with
  | hole hq hdead =>
    refine find_of_append (v := v) (x := []) (List.append_nil _).symm (fun r hr => ?_) hfind
    by_cases hrq : r = q
    · -- the place was free, and its new name is another one
      subst hrq
      have hdd : d = d' := hs.apart d d' r.1 hd.1 hd'.1 (mem_places.mp hr).1 (mem_places.mp hq).1
      have hne : new ≠ old := by
        rintro rfl
        rw [hdd, hfree] at hfind
        cases hfind
      unfold View.isNamed
      rw [at?_put_self, DirEntry.bytes_named]
      simp [hne, hdead]
    · exact hnamed _ _ r (at?_put_ne hrq)
  | @block b hb hclear hleast hfew =>
    have hroot : b ≠ 35 := ne_rootBlock hleast hbefore
    have hslots : ∃ extra, (v.grow d' b).slots d = v.slots d ++ extra := by
      unfold View.slots
      by_cases hdd : d = d'
      · subst hdd
        rw [show (v.grow d b).inode d = grown (v.inode d) b from update_self ..,
          usedSlots_grown (hs.directory d hd).fits.slots hfew]
        exact ⟨[b], rfl⟩
      · rw [inode_grow hdd]
        exact ⟨[], (List.append_nil _).symm⟩
    obtain ⟨extra, hslots⟩ := hslots
    refine find_of_append (v := v) (x := places extra) ?_ (fun r hr => ?_) hfind
    · show places ((v.grow d' b).slots d) = _
      rw [hslots]
      exact List.flatMap_append
    · have hold := at?_grow (d := d') hs hclear hroot hd.1 hr
      have hrq : r ≠ (b, 0) := by
        rintro rfl
        exact hs.fresh hclear hroot hd.1 (mem_places.mp hr).1
      exact hnamed _ _ r ((at?_put_ne hrq).trans hold)

theorem rename_sound {oldDir newDir : Nat} {oldName newName : Str} (hs : Sound (view fs) 0)
    (hd : (view fs).Dir 0 oldDir) (hd' : (view fs).Dir 0 newDir)
    (hbefore : ∃ c < 35, (view fs).marked c = false)
    (hname : oldName.bytes ≠ dotName ∧ oldName.bytes ≠ dotDotName)
    (hstay : oldDir = newDir ∨ ∀ i, outcome (lookupInDir debug oldDir oldName) fs = .ok i →
      (fs.record i).fileType ≠ typeDirectory) :
    Leaves (·.view.Sound 0) (rename debug oldDir oldName newDir newName) fs := by
  unfold Leaves rename
  refine (lookupInDir_ends hs.first (hs.directory oldDir hd)).with_run.bind ?_ ?_
  · rintro c fs' ⟨⟨rfl, p, hfind, hinode⟩, hrun⟩
    obtain ⟨hp, hlive, hbytes⟩ := find_eq_some hfind
    have hdot := not_isDot_of_bytes hbytes hname
    have hlink : (view fs').link 0 oldDir p = some c :=
      link_eq_some.mpr ⟨hd, hp, hlive, hdot, hinode⟩
    have hnode := (hs.tree.valid _ _ _ hlink).2
    refine (readInode_returns hnode.1.1 hnode.1.2.le).seq ?_
    refine (isInDir_ends hs.first (hs.directory newDir hd')).bind ?_ fun _ _ h => h.elim
    rintro found fs'' ⟨rfl, -⟩
    rw [ends_bind]
    refine ends_failIf (fun _ => ?_) (.inr hs)
    rw [ends_bind]
    have hc : c < 256 ^ 4 := by
      have := hnode.1
      unfold maxInodes at this
      omega
    have htype : (if ((view fs'').inode c).fileType = typeDirectory then typeDirectory
        else typeFile) < 256 := by
      split <;> decide
    refine (addDirEntry_ends hs.first (hs.directory newDir hd') hc htype).mono ?_
      (sound_of_unchanged hs)
    rintro _ fs1 ⟨hfree, hshort, w, q, hroom, hview1⟩
    obtain ⟨hsw, hdw', hq, hdead⟩ := hs.room hd' hroom hbefore
    obtain ⟨hlinks, htypes⟩ := hs.toShape.room hd' hroom hbefore
    have hlink' : w.link 0 oldDir p = some c := (hlinks oldDir p).trans hlink
    have hread :=
      named_readable c (if ((view fs'').inode c).fileType = typeDirectory then typeDirectory
      else typeFile) hshort
    have hnew : ¬(DirEntry.named c newName.bytes (if ((view fs'').inode c).fileType = typeDirectory
        then typeDirectory else typeFile)).IsDot :=
      not_isDot_of_bytes (DirEntry.bytes_named ..) (not_dot_of_find hs.toShape hd' hfree)
    -- between the two writes the inode has both names: a shape, not yet a tree
    have hs1 : Shape (view fs1) 0 := by
      rw [hview1]
      exact hsw.toShape.put (fun h => absurd hdead h) fun _ => ⟨hread, hnew⟩
    have hd1 : (view fs1).Dir 0 oldDir := by
      rw [hview1]
      exact (link_eq_some.mp hlink').1
    have hfind1 : (view fs1).find oldDir oldName.bytes = some p := by
      rw [hview1]
      exact find_room hs.toShape hd hd' hfind hfree hroom hbefore
    refine (removeDirEntry_ends hs1.first (hs1.directory oldDir hd1) hfind1).mono
      (fun _ fs2 hview2 => ?_) fun _ _ h => h
    rw [hview2, hview1]
    refine hsw.move hlink' hdw' hq hdead rfl hread hnew fun htype => ?_
    rcases hstay with heq | hfile
    · exact heq.symm
    · rw [htypes, view_inode hnode.1.1 hnode.1.2.le] at htype
      exact absurd htype (hfile c hrun.outcome_eq)
  · rintro e fs' ⟨rfl, -, -⟩
    exact .inr hs

/-! ## Runs -/

/-- One step within the conditions. -/
theorem Sound.step {fs' : HomeFs} (hs : Sound (view fs) 0) {op : Op} (hop : fs.TreeStep debug op)
    (hstep : fs.step debug op = some fs') : Sound (view fs') 0 := by
  have hends : Leaves (·.view.Sound 0) (op.call debug) fs := by
    cases op with
    | createFile dir name mode =>
      exact ends_bind.mpr (createFile_sound hs (isDirectory_iff.mp hop.1) (exists_free hop.2))
    | createDirectory parent name mode =>
      exact ends_bind.mpr
        (createDirectory_sound hs (isDirectory_iff.mp hop.1) (exists_free_ne hop.2))
    | unlinkFile dir name => exact unlinkFile_sound hs (isDirectory_iff.mp hop)
    | rmdir parent name => exact rmdir_sound hs (isDirectory_iff.mp hop.1) hop.2
    | rename oldDir oldName newDir newName =>
      obtain ⟨hold, hnew, hroom, hname, hstay⟩ := hop
      exact rename_sound hs (isDirectory_iff.mp hold) (isDirectory_iff.mp hnew)
        (exists_free hroom) hname hstay
    | writeFile => exact hop.elim
    | truncate => exact hop.elim
    | chmod => exact hop.elim
  unfold Leaves Ends at hends
  unfold HomeFs.step at hstep
  split at hstep <;> simp_all

/-! ## A new file system -/

/-- A short name read from a sector. -/
theorem readable_of_bytes {buf : Memory} {offset : Nat} {name : List Byte}
    (h : (DirEntry.decode buf offset).bytes = name) (hshort : name.length < maxFilenameLen)
    (hvalid : validUtf8 name = true) : (DirEntry.decode buf offset).Readable where
  short := by
    have hlen : (DirEntry.decode buf offset).bytes.length =
        min (DirEntry.decode buf offset).nameLen maxFilenameLen := by
      simp [DirEntry.bytes, DirEntry.decode]
    rw [h] at hlen
    omega
  valid := h ▸ hvalid

/-- A view with the root alone, whose block holds its dots at the indices `i` and `j`. -/
structure RootOnly (v : View) (i j : Nat) : Prop where
  first : v.firstDataBlock = 35
  root : v.rootInode = 1
  node : ∀ c, v.Node 0 c ↔ c = 1
  inode : v.inode 1 = newRoot
  zero : v.marked 0 = true
  indices : i < entriesPerBlock ∧ j < entriesPerBlock
  dot : (v.at? (35, i)).inode = 1 ∧ (v.at? (35, i)).bytes = dotName
  dot_dot : (v.at? (35, j)).inode = 1 ∧ (v.at? (35, j)).bytes = dotDotName
  readable : (v.at? (35, i)).Readable ∧ (v.at? (35, j)).Readable

namespace RootOnly

variable {v : View} {i j : Nat} (h : RootOnly v i j)
include h

theorem slots : v.slots 1 = [35] := by
  unfold View.slots
  rw [h.inode]
  rfl

theorem mem_places : p ∈ v.places 1 ↔ p = (35, i) ∨ p = (35, j) := by
  obtain ⟨b, k⟩ := p
  have hij : i ≠ j := by
    rintro rfl
    cases h.dot.2.symm.trans h.dot_dot.2
  have hi := h.indices
  unfold View.places
  rw [HomeFs.mem_places, h.slots, List.mem_singleton]
  unfold entriesPerBlock at *
  simp only [Prod.mk.injEq]
  omega

theorem dir : v.Dir 0 d ↔ d = 1 := by
  unfold Dir
  rw [h.node]
  constructor
  · exact fun hd => hd.1
  · rintro rfl
    rw [h.inode]
    exact ⟨rfl, rfl⟩

theorem link_none (d : Nat) (p : Nat × Nat) : v.link 0 d p = none := by
  refine link_eq_none.mpr ?_
  rintro ⟨hd, hp, -, hnot⟩
  obtain rfl := h.dir.mp hd
  rcases h.mem_places.mp hp with rfl | rfl
  · exact hnot (.inl h.dot.2)
  · exact hnot (.inr h.dot_dot.2)

theorem shape : Shape v 0 where
  first := h.first
  root := h.root
  root_dir := h.dir.mpr rfl
  directory d hd := by
    obtain rfl := h.dir.mp hd
    refine ⟨by decide, by decide, h.inode ▸ rfl, h.inode ▸ rfl, h.inode ▸ newRoot_fits,
      h.inode ▸ (by decide : newRoot.blocksUsed ≤ maxDirectBlocks), ?_, fun p hp _ => ?_⟩
    · rw [h.slots]
      decide
    · rcases h.mem_places.mp hp with rfl | rfl
      · exact h.readable.1
      · exact h.readable.2
  file c hc hfile := by
    obtain rfl := (h.node c).mp hc
    exact absurd (h.dir.mpr rfl).2 hfile
  marked c hc b hb := by
    obtain rfl := (h.node c).mp hc
    rw [h.slots, List.mem_singleton] at hb
    exact .inl ⟨rfl, hb⟩
  zero := h.zero
  nodup c hc := by
    obtain rfl := (h.node c).mp hc
    rw [h.slots]
    decide
  apart c c' b hc hc' _ _ := ((h.node c).mp hc).trans ((h.node c').mp hc').symm
  dot d hd := by
    obtain rfl := h.dir.mp hd
    refine ⟨⟨_, h.mem_places.mpr (.inl rfl), by rw [h.dot.1]; decide, h.dot.2⟩,
      fun p hp _ hname => ?_⟩
    rcases h.mem_places.mp hp with rfl | rfl
    · exact h.dot.1
    · cases h.dot_dot.2.symm.trans hname
  dot_dot d hd := by
    obtain rfl := h.dir.mp hd
    exact ⟨⟨_, h.mem_places.mpr (.inr rfl), by rw [h.dot_dot.1]; decide, h.dot_dot.2⟩,
      fun _ _ _ _ => trivial⟩

theorem sound : Sound v 0 where
  toShape := h.shape
  parent d hd p hp _ hname := by
    obtain rfl := h.dir.mp hd
    rw [if_pos rfl]
    rcases h.mem_places.mp hp with rfl | rfl
    · exact h.dot.1
    · exact h.dot_dot.1
  tree := by
    have hchild : ∀ a b, ¬Child (v.link 0) a b := by
      rintro a b ⟨k, hk⟩
      rw [h.link_none] at hk
      cases hk
    refine ⟨(h.node 1).mpr rfl, fun d k c hk => ?_, fun d k d' k' c hk => ?_,
      fun c hc => ?_, fun c hc => ?_⟩
    · rw [h.link_none] at hk
      cases hk
    · rw [h.link_none] at hk
      cases hk
    · obtain rfl := (h.node c).mp hc
      exact .refl
    · obtain ⟨b, hb, -⟩ := TransGen.head'_iff.mp hc
      exact hchild c b hb

end RootOnly

/-- The instance that `create` leaves on a device with the root's dots in place. -/
theorem create_sound {disk : Nat → Memory} (hplace : RootInPlace disk)
    (hcreate : create disk = .ok () fs) : Sound (view fs) 0 := by
  obtain ⟨hdisk, hsuper, hinodes, hblocks⟩ := create_fields hcreate
  obtain ⟨i, hi, j, hj, hdot, hdotdot⟩ := hplace
  have hentry : ∀ k, (view fs).at? (35, k) =
      DirEntry.decode (disk (35 + 35)) (k * dirEntrySize) := by
    intro k
    show DirEntry.decode (fs.disk (35 + 35)) _ = _
    rw [hdisk]
    rfl
  refine RootOnly.sound (i := i) (j := j) ⟨?_, ?_, fun c => ⟨?_, ?_⟩, ?_, ?_, ⟨hi, hj⟩, ?_, ?_, ?_⟩
  · show fs.superblock.firstDataBlock = 35
    rw [hsuper]
    rfl
  · show fs.superblock.rootInode = 1
    rw [hsuper]
    rfl
  · rintro ⟨⟨hlo, hhi⟩, hbit, -⟩
    exact allocated_setBit hinodes ⟨hlo, hhi, hbit⟩
  · rintro rfl
    refine ⟨by decide, ?_, by decide⟩
    show bitSet fs.inodeBitmap 1 = true
    rw [hinodes]
    decide
  · rw [view_inode (by decide) (by decide)]
    exact record_root hdisk
  · show bitSet fs.blockBitmap 0 = true
    rw [hblocks]
    decide
  · rw [hentry]
    exact hdot
  · rw [hentry]
    exact hdotdot
  · rw [hentry, hentry]
    exact ⟨readable_of_bytes hdot.2 (by decide) (by decide),
      readable_of_bytes hdotdot.2 (by decide) (by decide)⟩

/-! ## The tree -/

/-- The places of a directory's live entries. -/
def livePlaces (v : View) (d : Nat) : List (Nat × Nat) :=
  (v.places d).filter fun p => (v.at? p).inode ≠ 0

theorem mem_livePlaces : p ∈ livePlaces v d ↔ p ∈ v.places d ∧ (v.at? p).inode ≠ 0 := by
  simp [livePlaces]

/-- A node whose record says directory is one. -/
theorem dir_of_record (hd : (view fs).Node 0 d) (htype : (fs.record d).fileType = typeDirectory) :
    (view fs).Dir 0 d := by
  refine ⟨hd, ?_⟩
  rw [view_inode hd.1.1 hd.1.2.le]
  exact htype

theorem record_of_dir (hd : (view fs).Dir 0 d) : (fs.record d).fileType = typeDirectory := by
  rw [← view_inode hd.1.1.1 hd.1.1.2.le]
  exact hd.2

section

variable (hs : Sound (view fs) 0)
include hs

theorem liveEntries_eq (hd : (view fs).Dir 0 d) :
    fs.liveEntries d = (livePlaces (view fs) d).map (view fs).at? := by
  have hdir := hs.directory d hd
  exact liveEntries_places hs.first hdir.pos hdir.le hdir.slots

theorem mem_liveEntries (hd : (view fs).Dir 0 d) :
    e ∈ fs.liveEntries d ↔ ∃ p ∈ (view fs).places d, ((view fs).at? p).inode ≠ 0 ∧
      (view fs).at? p = e := by
  rw [liveEntries_eq hs hd, List.mem_map]
  simp only [mem_livePlaces, and_assoc]

/-- What can be reached is a node. -/
theorem node_of_reachable (h : fs.ReachableInode d) : (view fs).Node 0 d := by
  have hroot : fs.superblock.rootInode = 1 := hs.root
  unfold ReachableInode at h
  rw [hroot] at h
  induction h with
  | refl => exact hs.root_dir.1
  | tail _ hentry ih =>
    obtain ⟨htype, e, he, rfl⟩ := hentry
    have hdir := dir_of_record ih htype
    obtain ⟨p, hp, hlive, rfl⟩ := (mem_liveEntries hs hdir).mp he
    exact (hs.entry_node hdir hp hlive).1

theorem reachable_of_node (h : (view fs).Node 0 d) : fs.ReachableInode d := by
  have hroot : fs.superblock.rootInode = 1 := hs.root
  unfold ReachableInode
  rw [hroot]
  refine ReflTransGen.mono ?_ _ _ (hs.tree.reach d h)
  rintro a b ⟨p, hp⟩
  obtain ⟨ha, hmem, hlive, -, hb⟩ := link_eq_some.mp hp
  exact ⟨record_of_dir ha, _, (mem_liveEntries hs ha).mpr ⟨p, hmem, hlive, rfl⟩, hb⟩

/-- An entry that is named is a link, at the place of its index. -/
theorem names_iff {k : Nat} : fs.Names d k c ↔
    ∃ p, (livePlaces (view fs) d)[k]? = some p ∧ (view fs).link 0 d p = some c := by
  constructor
  · rintro ⟨hreach, htype, e, hk, hinode, hdot⟩
    have hd := dir_of_record (node_of_reachable hs hreach) htype
    rw [liveEntries_eq hs hd, List.getElem?_map] at hk
    obtain ⟨p, hp, rfl⟩ := Option.map_eq_some_iff.mp hk
    obtain ⟨hmem, hlive⟩ := mem_livePlaces.mp (List.mem_of_getElem? hp)
    exact ⟨p, hp, link_eq_some.mpr ⟨hd, hmem, hlive, hdot, hinode⟩⟩
  · rintro ⟨p, hp, hlink⟩
    obtain ⟨hd, hmem, hlive, hdot, hinode⟩ := link_eq_some.mp hlink
    refine ⟨reachable_of_node hs hd.1, record_of_dir hd, (view fs).at? p, ?_, hinode, hdot⟩
    rw [liveEntries_eq hs hd, List.getElem?_map, hp]
    rfl

theorem names_of_link (h : (view fs).link 0 d p = some c) : ∃ k, fs.Names d k c := by
  obtain ⟨-, hmem, hlive, -, -⟩ := link_eq_some.mp h
  obtain ⟨k, hk⟩ := List.getElem?_of_mem (mem_livePlaces.mpr ⟨hmem, hlive⟩)
  exact ⟨k, (names_iff hs).mpr ⟨p, hk, h⟩⟩

/-- Reading a name in a directory. -/
theorem maps_liveEntries (hd : (view fs).Dir 0 d) {name : List Byte}
    {c : Nat → Prop} (h : (view fs).Maps d name c) :
    (∃ e ∈ fs.liveEntries d, e.bytes = name) ∧ ∀ e ∈ fs.liveEntries d, e.bytes = name →
      c e.inode := by
  obtain ⟨⟨p, hp, hlive, hname⟩, hall⟩ := h
  refine ⟨⟨_, (mem_liveEntries hs hd).mpr ⟨p, hp, hlive, rfl⟩, hname⟩, fun e he hname' => ?_⟩
  obtain ⟨q, hq, hlive', rfl⟩ := (mem_liveEntries hs hd).mp he
  exact hall q hq hlive' hname'

/-- A sound view is a tree of directories. -/
theorem treeShaped_of_sound : TreeShaped fs where
  entries_allocated d c hreach hentry := by
    obtain ⟨hrange, hused, -⟩ := node_of_reachable hs (hreach.tail hentry)
    exact ⟨hrange.1, hrange.2, hused⟩
  named_once i hi hne := by
    have hroot : fs.superblock.rootInode = 1 := hs.root
    rw [hroot] at hne
    obtain ⟨hlo, hhi, hused⟩ := hi
    obtain ⟨d, p, hlink⟩ := hs.tree.linked (c := i) ⟨⟨hlo, hhi⟩, hused, by omega⟩ hne
    obtain ⟨k, hk⟩ := names_of_link hs hlink
    refine ⟨(d, k), hk, ?_⟩
    rintro ⟨d', k'⟩ hk'
    obtain ⟨q, hq, hlink1⟩ := (names_iff hs).mp hk
    obtain ⟨q', hq', hlink2⟩ := (names_iff hs).mp hk'
    obtain ⟨rfl, rfl⟩ := hs.tree.once _ _ _ _ _ hlink2 hlink1
    -- a place occurs once among the live ones
    have hd := (link_eq_some.mp hlink1).1
    have hnodup : (livePlaces (view fs) d').Nodup := (nodup_places (hs.nodup d' hd.1)).filter _
    have hlen := (List.getElem?_eq_some_iff.mp hq').1
    exact Prod.ext rfl ((List.getElem?_inj hlen hnodup).mp (hq'.trans hq.symm))
  dot d hd := maps_liveEntries hs (isDirectory_iff.mp hd) (hs.dot d (isDirectory_iff.mp hd))
  dot_dot d hd := by
    have hroot : fs.superblock.rootInode = 1 := hs.root
    have hd := isDirectory_iff.mp hd
    refine maps_liveEntries hs hd (c := fun x => if d = fs.superblock.rootInode then x = d
      else ∃ k, fs.Names x k d) ⟨(hs.dot_dot d hd).1, fun p hp hlive hname => ?_⟩
    have hparent := hs.parent d hd p hp hlive hname
    rw [hroot]
    split
    · rw [if_pos ‹_›] at hparent
      exact hparent.trans ‹d = 1›.symm
    · rw [if_neg ‹_›] at hparent
      obtain ⟨q, hq⟩ := hparent
      exact names_of_link hs hq

end

theorem inductive_sound (debug : Bool) :
    (runs debug RootInPlace fun fs op => fs.TreeStep debug op).Inductive fun fs => Sound
    (view fs) 0 where
  init fs := by
    rintro ⟨disk, hplace, hcreate⟩
    exact create_sound hplace hcreate
  step fs fs' hs := by
    rintro ⟨op, hop, hstep⟩
    exact Sound.step hs hop hstep

/-- On a device that holds the root's dots where its readers look, the directories
stay a tree in every run whose operations keep to `TreeStep`. -/
theorem directory_tree {fs : HomeFs}
    (h : (runs debug RootInPlace fun fs op => fs.TreeStep debug op).Reachable fs) : TreeShaped fs :=
  treeShaped_of_sound ((inductive_sound debug).invariant fs h)

/-- A device that holds the root's dots in sector 70. -/
def rootDevice : Nat → Memory := fun i => if i = 70 then dotBlock 1 1 else zeroSector

theorem rootInPlace_rootDevice : RootInPlace rootDevice := by
  obtain ⟨hfirst, hsecond⟩ := dotBlock_decode (n := 1) (d := 1) (by decide) (by decide)
  refine ⟨0, by decide, 1, by decide, ⟨?_, ?_⟩, ?_, ?_⟩
  · exact congrArg DirEntry.inode hfirst
  · exact (congrArg DirEntry.bytes hfirst).trans (DirEntry.bytes_named ..)
  · exact congrArg DirEntry.inode hsecond
  · exact (congrArg DirEntry.bytes hsecond).trans (DirEntry.bytes_named ..)

/-- A file `a` and a directory `b` in the root. -/
def twoEntries : HomeFs :=
  ((newHome rootDevice).after (.createFile 1 ⟨[0x61], rfl⟩ 0o644)).after
    (.createDirectory 1 ⟨[0x62], rfl⟩ 0o755)

/-- The file moves to the directory. -/
theorem directory_tree_rename :
    TreeShaped (twoEntries.after (.rename 1 ⟨[0x61], rfl⟩ 3 ⟨[0x63], rfl⟩)) := by
  have hstart : (runs true RootInPlace fun fs op => fs.TreeStep true op).Reachable
      (newHome rootDevice) :=
    .init ⟨rootDevice, rootInPlace_rootDevice, create_newHome _⟩
  have hfile := hstart.step ⟨.createFile 1 ⟨[0x61], rfl⟩ 0o644,
    ⟨by unfold IsDirectory Allocated; decide +kernel,
    by decide +kernel⟩, step_after (by decide +kernel)⟩
  have hdir := hfile.step ⟨.createDirectory 1 ⟨[0x62], rfl⟩ 0o755,
    ⟨by unfold IsDirectory Allocated; decide +kernel,
    by decide +kernel⟩, step_after (by decide +kernel)⟩
  have hlookup : outcome (lookupInDir true 1 ⟨[0x61], rfl⟩) twoEntries = .ok 2 := by decide +kernel
  refine directory_tree (hdir.step ⟨.rename 1 ⟨[0x61], rfl⟩ 3 ⟨[0x63], rfl⟩,
    ⟨?_, ?_, ?_, ?_, .inr ?_⟩, step_after (by decide +kernel)⟩)
  · unfold IsDirectory Allocated
    decide +kernel
  · unfold IsDirectory Allocated
    decide +kernel
  · decide +kernel
  · decide
  · intro i hi
    obtain rfl : 2 = i := Except.ok.inj (hlookup.symm.trans hi)
    decide +kernel

/-- Two directories `a` and `b` in the root. -/
def twoDirectories : HomeFs :=
  ((newHome rootDevice).after (.createDirectory 1 ⟨[0x61], rfl⟩ 0o755)).after
    (.createDirectory 1 ⟨[0x62], rfl⟩ 0o755)

/-- A directory whose `..` does not have an entry for it. -/
theorem not_treeShaped_of_stale {x : Nat} (hd : fs.IsDirectory d)
    (hroot : d ≠ fs.superblock.rootInode)
    (hold : ∀ e ∈ fs.liveEntries d, e.bytes = dotDotName → e.inode = x)
    (hgone : ∀ e ∈ fs.liveEntries x, e.inode ≠ d) :
    ¬TreeShaped fs := by
  intro h
  obtain ⟨⟨e, he, hname⟩, hall⟩ := h.dot_dot d hd
  have hparent := hall e he hname
  rw [if_neg hroot, hold e he hname] at hparent
  obtain ⟨k, -, -, e', hk, hinode, -⟩ := hparent
  exact hgone e' (List.mem_of_getElem? hk) hinode

/-- On a device of zeros the new root has no entry at all. With its dots in place,
a directory that moves to another one keeps its old `..`. -/
theorem home_tree_broken :
    ((newHome fun _ => zeroSector).liveEntries 1 = [] ∧ ¬TreeShaped (newHome fun _ => zeroSector)) ∧
      ¬TreeShaped (twoDirectories.after (.rename 1 ⟨[0x61], rfl⟩ 3 ⟨[0x61], rfl⟩)) := by
  have hempty : (newHome fun _ => zeroSector).liveEntries 1 = [] := by decide +kernel
  refine ⟨⟨hempty, fun h => ?_⟩, not_treeShaped_of_stale (d := 2) (x := 1) ?_ ?_ ?_ ?_⟩
  · obtain ⟨⟨e, he, -⟩, -⟩ := h.dot 1 (by unfold IsDirectory Allocated; decide +kernel)
    rw [hempty] at he
    cases he
  · unfold IsDirectory Allocated
    decide +kernel
  · decide +kernel
  · decide +kernel
  · decide +kernel

end PandaOS.Kernel.HomeFs
