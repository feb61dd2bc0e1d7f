import PandaOS.Lib.Slots
import PandaOS.Logic.HomeTree

/-!
# A directory as a finite map

The entries of a directory are kept in the slots of its blocks. `add_dir_entry`
takes the first free slot, or the first slot of a new block, `remove_dir_entry`
clears a slot for the next name. `MapDir` says that the live entries make up a map
from names to inodes; both operations keep it for the map they ask for
(`directory_is_map`).
-/

namespace PandaOS.Kernel.HomeFs

open Lib Function

variable {debug isDir : Bool} {fs fs' : HomeFs} {d : Nat} {v : View}

/-! ## Operations on one directory -/

inductive DirOp
  | add (name : Str) (child : Nat) (isDir : Bool)
  | remove (name : Str)

namespace DirOp

/-- `child_type as u8`. -/
def typeOf (isDir : Bool) : Nat := if isDir then typeDirectory else typeFile

/-- Names of 1 to 248 bytes, and inode numbers of 32 bits other than 0. -/
def Valid : DirOp → Prop
  | .add name child _ =>
    (name.bytes ≠ [] ∧ name.bytes.length ≤ maxFilenameLen) ∧ 0 < child ∧ child < 2 ^ 32
  | .remove name => name.bytes ≠ [] ∧ name.bytes.length ≤ maxFilenameLen

/-- The operation as a program. -/
def call (debug : Bool) (d : Nat) : DirOp → HomeM Unit
  | .add name child isDir => addDirEntry debug d name child (typeOf isDir)
  | .remove name => removeDirEntry debug d name

/-- What the operation asks of a map. -/
def effect (m : List Byte → Option Nat) : DirOp → List Byte → Option Nat
  | .add name child _ => update m name.bytes (some child)
  | .remove name => update m name.bytes none

end DirOp

/-- The state after some operations, with those that returned `Ok`; `none` after a
panic. -/
def dirRun (debug : Bool) (d : Nat) : List DirOp → HomeFs → Option (HomeFs × List DirOp)
  | [], fs => some (fs, [])
  | op :: ops, fs =>
    match (op.call debug d).run fs with
    | .ok _ fs' => (dirRun debug d ops fs').map fun r => (r.1, op :: r.2)
    | .error (.err _) fs' => dirRun debug d ops fs'
    | .error .panic _ => none

/-- The inode added last under each name and not removed since, starting from a
map. -/
def lastAdded (m : List Byte → Option Nat) (done : List DirOp) : List Byte → Option Nat :=
  done.foldl DirOp.effect m

/-- The inode under each name. -/
def nameMap (fs : HomeFs) (d : Nat) (name : List Byte) : Option Nat :=
  ((fs.liveEntries d).find? fun e => e.bytes = name).map (·.inode)

/-- The live entries of a directory are well formed and have different names. -/
structure EntriesSound (fs : HomeFs) (d : Nat) : Prop where
  readable : ∀ e ∈ fs.liveEntries d, e.Readable
  fileType : ∀ e ∈ fs.liveEntries d, e.fileType = typeFile ∨ e.fileType = typeDirectory
  names : ((fs.liveEntries d).map (·.bytes)).Nodup

/-- The calls on a directory answer as a map does. -/
structure IsMap (debug : Bool) (fs : HomeFs) (d : Nat) (m : List Byte → Option Nat) : Prop where
  lookup : ∀ name : Str, name.bytes.length ≤ maxFilenameLen →
      outcome (lookupInDir debug d name) fs = match m name.bytes with
      | some c => .ok c
      | none => .error (.err .notFound)
  readdir : ∃ l, outcome (readdir debug d) fs = .ok l ∧ (l.map (·.2.1)).Nodup ∧
    ∀ name c, m name = some c ↔ ∃ t, (c, name, t) ∈ l
  /-- A name that is there is not added again, and nothing changes. -/
  add_existing : ∀ name child isDir, (DirOp.add name child isDir).Valid → m name.bytes ≠ none →
    Throws (addDirEntry debug d name child (DirOp.typeOf isDir)) fs (.err .alreadyExists) fs
  /-- A new name is refused only for want of a slot. -/
  add_new : ∀ name child isDir, (DirOp.add name child isDir).Valid → m name.bytes = none →
    ∀ e fs', Throws (addDirEntry debug d name child (DirOp.typeOf isDir)) fs e fs' → e =
        .err .noSpace ∧ fs' = fs ∧ ((fs.liveEntries d).length = maxDirectBlocks * entriesPerBlock ∨
          outcome (allocateBlock debug) fs = .error (.err .noSpace))
  /-- A name that is there is removed, and no other one. -/
  remove : ∀ name : Str, if m name.bytes = none then Throws (removeDirEntry debug d name) fs
    (.err .notFound) fs else ∃ fs', Returns (removeDirEntry debug d name) fs () fs'

/-! ## The map in the slots -/

/-- A live entry binds its name to its inode. -/
def entryBinding : Binding DirEntry (List Byte) Nat where
  live e := e.inode ≠ 0
  key := DirEntry.bytes
  val := DirEntry.inode

theorem mem_live {places : List (Nat × Nat)} {p : Nat × Nat} :
    (p ∈ places.filter fun p => (v.at? p).inode ≠ 0) ↔
      p ∈ places ∧ entryBinding.live (v.at? p) := by
  rw [List.mem_filter, decide_eq_true_eq]
  rfl

namespace View

/-- The slots of directory `d` hold a map. -/
structure MapDir (v : View) (d : Nat) (m : List Byte → Option Nat) : Prop where
  first : v.firstDataBlock = 35
  listing : v.Listing d
  nodup : (v.slots d).Nodup
  marked : ∀ b ∈ v.slots d, v.marked b = true
  zero : v.marked 0 = true
  fileType : ∀ p ∈ v.places d, (v.at? p).inode ≠ 0 → (v.at? p).fileType = typeFile ∨
    (v.at? p).fileType = typeDirectory
  map : Represents entryBinding (v.places d) v.at? m

variable {v : View} {m : List Byte → Option Nat} {b c : Nat} {p : Nat × Nat} {name : List Byte}

theorem MapDir.find_some (h : v.MapDir d m) (hfind : v.find d name = some p) :
    m name = some (v.at? p).inode := by
  obtain ⟨hp, hlive, rfl⟩ := find_eq_some hfind
  exact h.map.at_place hp hlive

theorem MapDir.find_none (h : v.MapDir d m) (hfind : v.find d name = none) : m name = none :=
  h.map.eq_none.mpr fun _ hp hlive => find_eq_none hfind hp hlive

/-! ## One operation -/

section

variable (h : v.MapDir d m)
include h

/-- A new block adds free places. -/
theorem MapDir.grow (hb : b < maxDataBlocks) (hclear : v.marked b = false)
    (hfew : (v.inode d).blocksUsed < maxDirectBlocks) : (v.grow d b).MapDir d m := by
  have hfits := h.listing.fits
  have hslots := slots_grow_self (b := b) hfits hfew
  have hnew : b ∉ v.slots d := fun hmem => by simp [h.marked b hmem] at hclear
  have hzero : b ≠ 0 := fun hb0 => by simp [hb0, h.zero] at hclear
  constructor
  case first => exact h.first
  case listing => exact h.listing.grow hfew hb hzero
  case nodup =>
    rw [hslots]
    refine List.nodup_append.mpr ⟨h.nodup, List.nodup_singleton b, ?_⟩
    rintro c hc c' hc' rfl
    exact hnew (List.mem_singleton.mp hc' ▸ hc)
  case marked =>
    intro c hc
    rw [hslots, List.mem_append, List.mem_singleton] at hc
    show update v.marked b true c = true
    rcases hc with hc | rfl
    · have hcb : c ≠ b := by
        rintro rfl
        exact hnew hc
      rw [update_of_ne hcb, h.marked c hc]
    · exact update_self c true v.marked
  case zero =>
    show update v.marked b true 0 = true
    rw [update_of_ne (Ne.symm hzero), h.zero]
  case fileType =>
    intro q hq hne
    obtain ⟨hmem, heq⟩ := live_grow hfits hfew hq hne
    rw [heq] at hne ⊢
    exact h.fileType q hmem hne
  case map =>
    refine h.map.extend (fun q hq => ⟨(mem_places_grow hfits hfew).mpr (.inl hq), at?_grow_old ?_⟩)
      fun q hq hout hne => hout (live_grow hfits hfew hq hne).1
    exact fun heq => hnew (heq ▸ (mem_places.mp hq).1)

/-- What a store to a place of the directory keeps. -/
theorem MapDir.put {e : DirEntry} {m' : List Byte → Option Nat}
    (he : e.inode ≠ 0 → e.Readable ∧ (e.fileType = typeFile ∨ e.fileType = typeDirectory))
    (hmap : Represents entryBinding (v.places d) (v.put p e).at? m') : (v.put p e).MapDir d m' := by
  have hentry : ∀ q, (v.put p e).at? q = e ∨ (v.put p e).at? q = v.at? q := by
    intro q
    rw [at?_put]
    split
    · exact .inl rfl
    · exact .inr rfl
  constructor
  case first => exact h.first
  case listing =>
    refine { h.listing with readable := fun q hq hne => ?_ }
    rcases hentry q with heq | heq
    · rw [heq] at hne ⊢
      exact (he hne).1
    · rw [heq] at hne ⊢
      exact h.listing.readable q hq hne
  case nodup => exact h.nodup
  case marked => exact h.marked
  case zero => exact h.zero
  case fileType =>
    intro q hq hne
    rcases hentry q with heq | heq
    · rw [heq] at hne ⊢
      exact (he hne).2
    · rw [heq] at hne ⊢
      exact h.fileType q hq hne
  case map => exact hmap

/-- A free place takes a new name. -/
theorem MapDir.enter {name : Str} (hp : p ∈ v.places d)
    (hdead : (v.at? p).inode = 0) (hnew : m name.bytes = none)
    (hshort : name.bytes.length ≤ maxFilenameLen) (hc : 0 < c) :
    (v.put p (DirEntry.named c name.bytes (DirOp.typeOf isDir))).MapDir d
    (update m name.bytes (some c)) := by
  have hbytes := DirEntry.bytes_named c (DirOp.typeOf isDir) name.bytes
  refine h.put (fun _ => ⟨⟨hshort, ?_⟩, ?_⟩) ?_
  · rw [hbytes]
    exact name.valid
  · cases isDir
    · exact .inl rfl
    · exact .inr rfl
  · refine h.map.insert hp (fun hlive => hlive hdead) ?_ ?_ ?_ hnew fun q _ hq => at?_put_ne hq
    · rw [at?_put_self]
      exact Nat.pos_iff_ne_zero.mp hc
    · rw [at?_put_self]
      exact hbytes
    · rw [at?_put_self]
      rfl

/-- The place of a name is cleared. -/
theorem MapDir.leave (hfind : v.find d name = some p) :
    (v.put p DirEntry.empty).MapDir d (update m name none) := by
  obtain ⟨hp, hlive, hbytes⟩ := find_eq_some hfind
  refine h.put (fun hne => absurd rfl hne) (h.map.erase hp hlive hbytes ?_ fun q _ hq =>
    at?_put_ne hq)
  rw [at?_put_self]
  exact fun hne => hne rfl

/-- A name that is added. -/
theorem MapDir.room {name : Str} {w : View} (hroom : v.Room d w p)
    (hnew : m name.bytes = none) (hshort : name.bytes.length ≤ maxFilenameLen) (hc : 0 < c) :
    (w.put p (DirEntry.named c name.bytes (DirOp.typeOf isDir))).MapDir d
    (update m name.bytes (some c)) := by
  cases hroom with
  | hole hp hdead => exact h.enter hp hdead hnew hshort hc
  | @block b hb hclear _ hfew =>
    have hempty : (v.grow d b).at? (b, 0) = DirEntry.empty := at?_grow_new rfl
    refine (h.grow hb hclear hfew).enter (mem_places.mpr ⟨?_, Nat.zero_lt_two⟩) ?_ hnew hshort hc
    · rw [slots_grow_self h.listing.fits hfew]
      exact List.mem_append_right _ (List.mem_singleton_self b)
    · rw [hempty]
      rfl

end

end View

/-! ## The calls -/

variable {m : List Byte → Option Nat}

theorem typeOf_lt (isDir : Bool) : DirOp.typeOf isDir < 256 := by
  cases isDir <;> decide

/-- The places of a directory without a free slot and without room for a block. -/
theorem length_places (hd : (view fs).Listing d)
    (hmany : maxDirectBlocks ≤ ((view fs).inode d).blocksUsed) :
    ((view fs).places d).length = maxDirectBlocks * entriesPerBlock := by
  have hslots : ((view fs).slots d).length = maxDirectBlocks := by
    show (((view fs).inode d).directBlocks.take ((view fs).inode d).blocksUsed).length = _
    rw [List.length_take, hd.fits.slots, Nat.min_eq_right hmany]
  show (((view fs).slots d).flatMap fun b => (List.range entriesPerBlock).map fun j =>
      (b, j)).length = _
  rw [List.length_flatMap]
  simp [hslots]

/-- Adding a name: it is there already, or the map gets it, or no slot can be had. -/
theorem addDirEntry_mapDir {name : Str} {child : Nat}
    (hop : (DirOp.add name child isDir).Valid) (h : (view fs).MapDir d m) :
    Ends (addDirEntry debug d name child (DirOp.typeOf isDir)) fs
      (fun _ fs' => m name.bytes = none ∧ (view fs').MapDir d (update m name.bytes (some child)))
      fun e fs' => fs' = fs ∧ (e = .err .alreadyExists ∧ m name.bytes ≠ none ∨
        e = .err .noSpace ∧ m name.bytes = none ∧
          ((fs.liveEntries d).length = maxDirectBlocks * entriesPerBlock ∨
            fs.nextBlock = none)) := by
  obtain ⟨⟨hne, hshort⟩, hpos, hlt⟩ := hop
  refine (addDirEntry_listing h.first h.listing (by omega : child < 256 ^ 4) (typeOf_lt isDir)).mono
    ?_ ?_
  · rintro _ fs' ⟨hnone, -, w, p, hroom, hview⟩
    have hnew := h.find_none hnone
    rw [hview]
    exact ⟨hnew, h.room hroom hnew hshort hpos⟩
  · rintro e fs' ⟨hfs, ⟨-, hempty | hlong⟩ | ⟨he, hthere⟩ | ⟨he, hnone, hfull, hroom⟩⟩
    · exact absurd hempty hne
    · omega
    · refine ⟨hfs, .inl ⟨he, ?_⟩⟩
      obtain ⟨p, hp⟩ := Option.ne_none_iff_exists'.mp hthere
      rw [h.find_some hp]
      simp
    · refine ⟨hfs, .inr ⟨he, h.find_none hnone, hroom.imp_left fun hmany => ?_⟩⟩
      rw [liveEntries_places h.first h.listing.pos h.listing.le h.listing.slots, List.length_map,
        List.filter_eq_self.mpr fun p hp => by simpa using hfull p hp]
      exact length_places h.listing hmany

/-- A directory that holds a map answers as one. -/
theorem isMap_of_mapDir (h : (view fs).MapDir d m) : IsMap debug fs d m := by
  constructor
  case lookup =>
    intro name hshort
    have hends : Ends (lookupInDir debug d name) fs _ _ := lookupInDir_listing h.first h.listing
    rcases hends.cases with
      ⟨c, fs', hret, -, -, p, hfind, rfl⟩ | ⟨e, fs', hth, -, ⟨-, hlong⟩ | ⟨rfl, hnone⟩⟩
    · rw [hret.outcome_eq, h.find_some hfind]
    · omega
    · rw [hth.outcome_eq, h.find_none hnone]
  case readdir =>
    refine ⟨_, (readdir_returns h.first h.listing h.fileType).outcome_eq, ?_, fun name c => ?_⟩
    · rw [List.map_map]
      -- no two live places have the same name
      refine List.Nodup.map_on (fun p hp q hq heq => ?_) ((nodup_places h.nodup).filter _)
      obtain ⟨hp, hlp⟩ := mem_live.mp hp
      obtain ⟨hq, hlq⟩ := mem_live.mp hq
      exact h.map.once p hp q hq hlp hlq heq
    · rw [h.map.bound name c]
      constructor
      · rintro ⟨p, hp, hlive, rfl, rfl⟩
        exact ⟨_, List.mem_map.mpr ⟨p, mem_live.mpr ⟨hp, hlive⟩, rfl⟩⟩
      · rintro ⟨t, hmem⟩
        obtain ⟨p, hp, heq⟩ := List.mem_map.mp hmem
        obtain ⟨hp, hlive⟩ := mem_live.mp hp
        cases heq
        exact ⟨p, hp, hlive, rfl, rfl⟩
  case add_existing =>
    intro name child isDir hop hthere
    have hends : Ends (addDirEntry debug d name child (DirOp.typeOf isDir)) fs _ _ :=
      addDirEntry_mapDir hop h
    rcases hends.cases with ⟨u, fs', -, hnew, -⟩ | ⟨e, fs', hth, rfl, ⟨rfl, -⟩ | ⟨-, hnew, -⟩⟩
    · exact absurd hnew hthere
    · exact hth
    · exact absurd hnew hthere
  case add_new =>
    intro name child isDir hop hnew e fs' hth
    have hends : Ends (addDirEntry debug d name child (DirOp.typeOf isDir)) fs _ _ :=
      addDirEntry_mapDir hop h
    obtain ⟨hfs, ⟨-, hthere⟩ | ⟨he, -, hroom⟩⟩ := hth.of_ends hends
    · exact absurd hnew hthere
    · exact ⟨he, hfs, hroom.imp_right fun hnext => (allocateBlock_throws hnext).outcome_eq⟩
  case remove =>
    intro name
    have hends : Ends (removeDirEntry debug d name) fs _ _ :=
      removeDirEntry_listing h.first h.listing
    rcases hends.cases with ⟨u, fs', hret, p, hfind, -⟩ | ⟨e, fs', hth, rfl, rfl, hnone⟩
    · rw [if_neg (by simp [h.find_some hfind])]
      exact ⟨fs', hret⟩
    · rwa [if_pos (h.find_none hnone)]

/-- One operation keeps the map, changed as it asks if it returns `Ok`. -/
theorem dirOp_ends {op : DirOp} (hop : op.Valid) (h : (view fs).MapDir d m) :
    Ends (op.call debug d) fs (fun _ fs' => (view fs').MapDir d (op.effect m)) fun e fs' => e ≠
      .panic ∧ fs' = fs := by
  cases op with
  | add name child isDir =>
    refine (addDirEntry_mapDir hop h).mono (fun _ _ hmap => hmap.2) ?_
    rintro e fs' ⟨hfs, ⟨rfl, -⟩ | ⟨rfl, -⟩⟩
    · exact ⟨by simp, hfs⟩
    · exact ⟨by simp, hfs⟩
  | remove name =>
    refine (removeDirEntry_listing h.first h.listing).mono ?_ ?_
    · rintro _ fs' ⟨p, hfind, hview⟩
      rw [hview]
      exact h.leave hfind
    · rintro e fs' ⟨hfs, rfl, -⟩
      exact ⟨by simp, hfs⟩

/-- A sequence of operations keeps it. -/
theorem dirRun_mapDir {ops : List DirOp} (hops : ∀ op ∈ ops, op.Valid) (h : (view fs).MapDir d m) :
    ∃ fs' done, dirRun debug d ops fs = some (fs', done) ∧
      (view fs').MapDir d (lastAdded m done) := by
  induction ops generalizing fs m with
  | nil => exact ⟨fs, [], rfl, h⟩
  | cons op ops ih =>
    have hrest : ∀ op ∈ ops, op.Valid := fun op' hop => hops op' (List.mem_cons_of_mem _ hop)
    have hstep : Ends (op.call debug d) fs _ _ := dirOp_ends (hops op List.mem_cons_self) h
    rcases hstep.cases with ⟨u, fs1, hret, hnext⟩ | ⟨e, fs1, hth, hpanic, rfl⟩
    · obtain ⟨fs', done, hrun, hmap⟩ := ih hrest hnext
      refine ⟨fs', op :: done, ?_, hmap⟩
      simp only [dirRun, hret.run_eq, hrun, Option.map_some]
    · obtain ⟨fs', done, hrun, hmap⟩ := ih hrest h
      cases e with
      | panic => exact absurd rfl hpanic
      | err e =>
        refine ⟨fs', done, ?_, hmap⟩
        simp only [dirRun, hth.run_eq, hrun]

/-! ## The map at the start -/

/-- Entries with different names make up the map of these names. -/
theorem represents_nameMap {places : List (Nat × Nat)} {entries : List DirEntry}
    (hlive : entries = (places.filter fun p => (v.at? p).inode ≠ 0).map v.at?)
    (hnames : (entries.map (·.bytes)).Nodup) :
    Represents entryBinding places v.at? fun name =>
      (entries.find? fun e => e.bytes = name).map (·.inode) := by
  have hmem : ∀ e, e ∈ entries ↔ ∃ p ∈ places, (v.at? p).inode ≠ 0 ∧ v.at? p = e := by
    intro e
    rw [hlive]
    simp only [List.mem_map, List.mem_filter, decide_eq_true_eq, and_assoc]
  constructor
  · intro name c
    rw [Option.map_eq_some_iff]
    constructor
    · rintro ⟨e, hfind, rfl⟩
      obtain ⟨p, hp, hne, rfl⟩ := (hmem e).mp (List.mem_of_find?_eq_some hfind)
      have hbytes : (v.at? p).bytes = name := by simpa using List.find?_some hfind
      exact ⟨p, hp, hne, hbytes, rfl⟩
    · rintro ⟨p, hp, hne, hkey, rfl⟩
      have hkey : (v.at? p).bytes = name := hkey
      have hin := (hmem (v.at? p)).mpr ⟨p, hp, hne, rfl⟩
      cases hfind : entries.find? fun e => e.bytes = name with
      | none => exact absurd hkey (by simpa using List.find?_eq_none.mp hfind _ hin)
      | some e =>
        have hbytes : e.bytes = name := by simpa using List.find?_some hfind
        have heq := List.inj_on_of_nodup_map hnames (List.mem_of_find?_eq_some hfind) hin
          (hbytes.trans hkey.symm)
        exact ⟨e, rfl, by rw [heq]; rfl⟩
  · intro p hp q hq hlp hlq hkey
    have hinj :
        (((places.filter fun p => (v.at? p).inode ≠ 0).map fun p => (v.at? p).bytes)).Nodup := by
      rw [hlive, List.map_map] at hnames
      exact hnames
    exact List.inj_on_of_nodup_map hinj (mem_live.mpr ⟨hp, hlp⟩) (mem_live.mpr ⟨hq, hlq⟩) hkey

/-- A directory of a sound file system holds the map of its names. -/
theorem mapDir_of_sound (hfirst : fs.superblock.firstDataBlock = 35)
    (hnum : ∀ i, fs.Allocated i → (fs.record i).inodeNum = i) (hslots : SlotsDistinct fs)
    (hd : fs.IsDirectory d) (hentries : EntriesSound fs d) :
    (view fs).MapDir d (nameMap fs d) := by
  obtain ⟨halloc, htype⟩ := hd
  have hpos := halloc.1
  have hle := Nat.le_of_lt halloc.2.1
  have hinode : (view fs).inode d = fs.record d := view_inode hpos hle
  have hheld : ∀ b ∈ (view fs).slots d, ∃ k, fs.HoldsBlock d k b := by
    intro b hb
    rw [View.slots, hinode] at hb
    exact List.getElem?_of_mem hb
  have hblocks : ∀ b ∈ (view fs).slots d, b < maxDataBlocks ∧ b ≠ 0 := by
    intro b hb
    obtain ⟨k, hk⟩ := hheld b hb
    obtain ⟨hb0, hbmax, -⟩ := hslots.marked halloc hk
    exact ⟨hbmax, Nat.pos_iff_ne_zero.mp hb0⟩
  have hlive := liveEntries_places hfirst hpos hle hblocks
  have hentry : ∀ p ∈ (view fs).places d, ((view fs).at? p).inode ≠ 0 →
      (view fs).at? p ∈ fs.liveEntries d := by
    intro p hp hne
    rw [hlive]
    exact List.mem_map.mpr ⟨p, mem_live.mpr ⟨hp, hne⟩, rfl⟩
  constructor
  case first => exact hfirst
  case listing =>
    refine ⟨hpos, hle, ?_, ?_, ?_, hblocks, fun p hp hne => hentries.readable _ (hentry p hp hne)⟩
    · rw [hinode, htype]
    · rw [hinode, hnum d halloc]
    · rw [hinode]
      exact fs.record_fits _
  case nodup =>
    rw [View.slots, hinode, List.nodup_iff_getElem?_ne_getElem?]
    intro k l hkl hlen heq
    have hl := List.getElem?_eq_getElem hlen
    have hsame := (hslots.distinct halloc halloc (heq.trans hl) hl).2
    omega
  case marked =>
    intro b hb
    obtain ⟨k, hk⟩ := hheld b hb
    exact (hslots.marked halloc hk).2.2
  case zero => exact hslots.zero
  case fileType => exact fun p hp hne => hentries.fileType _ (hentry p hp hne)
  case map => exact represents_nameMap hlive hentries.names

/-- A directory is a finite map: after any sequence of additions and removals, the
calls on it answer as the map of the names added last and not removed since. -/
theorem directory_is_map (hfirst : fs.superblock.firstDataBlock = 35)
    (hnum : ∀ i, fs.Allocated i → (fs.record i).inodeNum = i) (hslots : SlotsDistinct fs)
    (hd : fs.IsDirectory d) (hentries : EntriesSound fs d) {ops : List DirOp}
    (hops : ∀ op ∈ ops, op.Valid) :
    ∃ fs' done, dirRun debug d ops fs = some (fs', done) ∧
      IsMap debug fs' d (lastAdded (nameMap fs d) done) := by
  obtain ⟨fs', done, hrun, hmap⟩ :=
    dirRun_mapDir hops (mapDir_of_sound hfirst hnum hslots hd hentries)
  exact ⟨fs', done, hrun, isMap_of_mapDir hmap⟩

/-! ## A directory with its dots -/

/-- Inode 2 is a directory in block 1, and nothing else is allocated. -/
def dotsOnly : HomeFs where
  disk sector :=
    if sector = 3 then storeAt zeroSector (inodeOffset 2)
      { newRoot with inodeNum := 2, directBlocks := [1, 0, 0, 0, 0, 0, 0, 0] }.encode
    else if sector = 36 then dotBlock 2 1
    else zeroSector
  log := []
  superblock := newSuperblock
  inodeBitmap := setBit zeroSector 2
  blockBitmap := setBit (setBit zeroSector 0) 1

theorem dotsOnly_allocated {i : Nat} (h : dotsOnly.Allocated i) : i = 2 := by
  have hbit : bitSet (setBit zeroSector 2) i = true := h.2.2
  rw [bitSet_setBit] at hbit
  by_contra hne
  rw [update_of_ne hne] at hbit
  simp [bitSet, zeroSector] at hbit

theorem dotsOnly_holds {k b : Nat} (h : dotsOnly.HoldsBlock 2 k b) : k = 0 ∧ b = 1 := by
  have hslots : usedSlots (dotsOnly.record 2) = [1] := by decide +kernel
  rw [HoldsBlock, hslots, List.getElem?_singleton] at h
  split at h
  · cases h
    exact ⟨‹_›, rfl⟩
  · cases h

theorem dotsOnly_slots : SlotsDistinct dotsOnly where
  marked hi hb := by
    obtain ⟨-, rfl⟩ := dotsOnly_holds (dotsOnly_allocated hi ▸ hb)
    decide
  distinct hi hj hb hb' := by
    obtain rfl := dotsOnly_allocated hi
    obtain rfl := dotsOnly_allocated hj
    exact ⟨rfl, (dotsOnly_holds hb).1.trans (dotsOnly_holds hb').1.symm⟩
  zero := by decide

theorem dotsOnly_entries : EntriesSound dotsOnly 2 := by
  have hlive : dotsOnly.liveEntries 2 =
      [DirEntry.named 2 dotName typeDirectory, DirEntry.named 1 dotDotName typeDirectory] := by
    decide +kernel
  refine ⟨fun e he => ?_, fun e he => ?_, ?_⟩
  · rw [hlive] at he
    rcases List.mem_pair.mp he with rfl | rfl
    · exact ⟨by decide, by decide⟩
    · exact ⟨by decide, by decide⟩
  · rw [hlive] at he
    rcases List.mem_pair.mp he with rfl | rfl
    · exact .inr rfl
    · exact .inr rfl
  · rw [hlive]
    decide

/-- A name is added, removed and added again. -/
theorem directory_is_map_dotsOnly : ∃ fs' done,
    dirRun true 2 [.add ⟨[0x61], by decide⟩ 3 false, .remove ⟨[0x61], by decide⟩,
      .add ⟨[0x61], by decide⟩ 4 true] dotsOnly = some (fs', done) ∧
      IsMap true fs' 2 (lastAdded (nameMap dotsOnly 2) done) := by
  refine directory_is_map rfl (fun i hi => ?_) dotsOnly_slots
    ⟨⟨by decide, by decide, by decide⟩, ?_⟩ dotsOnly_entries ?_
  · rw [dotsOnly_allocated hi]
    decide +kernel
  · decide +kernel
  · intro op hop
    simp only [List.mem_cons, List.not_mem_nil, or_false] at hop
    rcases hop with rfl | rfl | rfl
    · exact ⟨⟨by simp, by decide⟩, by decide, by decide⟩
    · exact ⟨by simp, by decide⟩
    · exact ⟨⟨by simp, by decide⟩, by decide, by decide⟩

end PandaOS.Kernel.HomeFs
