import PandaOS.Lib.Links
import PandaOS.Logic.HomeView

/-!
# The directory tree of the home file system

`Shape` says that the directories of a view can be read and own their blocks,
`Sound` that their entries form a tree whose dots follow it. An inode that has
been allocated and has no entry yet, or no entry any more, is left out of both.
-/

namespace PandaOS.Kernel.HomeFs.View

open Lib Function Relation

variable {v v' w : View} {n d b : Nat} {p q : Nat × Nat} {e : DirEntry} {c i : Nat}
  {name : List Byte}

/-- An allocated inode other than `n`. -/
def Node (v : View) (n i : Nat) : Prop := (0 < i ∧ i < maxInodes) ∧ v.used i = true ∧ i ≠ n

def Dir (v : View) (n d : Nat) : Prop := v.Node n d ∧ (v.inode d).fileType = typeDirectory

instance : Decidable (v.Node n d) := inferInstanceAs (Decidable (_ ∧ _))

instance : Decidable (v.Dir n d) := inferInstanceAs (Decidable (_ ∧ _))

/-- The entry at a place of a directory, if it is neither free nor a dot. -/
def link (v : View) (n d : Nat) (p : Nat × Nat) : Option Nat :=
  if v.Dir n d ∧ p ∈ v.places d ∧ (v.at? p).inode ≠ 0 ∧ ¬(v.at? p).IsDot then some (v.at? p).inode
  else none

/-- The links of the tree are the live entries except `.` and `..`. -/
theorem link_eq_some : v.link n d p = some c ↔
    v.Dir n d ∧ p ∈ v.places d ∧ (v.at? p).inode ≠ 0 ∧ ¬(v.at? p).IsDot ∧ (v.at? p).inode = c := by
  unfold link
  split
  · rename_i h
    obtain ⟨hd, hp, hlive, hdot⟩ := h
    simp [hd, hp, hlive, hdot]
  · rename_i h
    simp only [reduceCtorEq, false_iff]
    rintro ⟨hd, hp, hlive, hdot, -⟩
    exact h ⟨hd, hp, hlive, hdot⟩

theorem link_eq_none : v.link n d p = none ↔
    ¬(v.Dir n d ∧ p ∈ v.places d ∧ (v.at? p).inode ≠ 0 ∧ ¬(v.at? p).IsDot) := by
  unfold link
  split <;> simp_all

theorem link_congr {n' : Nat} (h : v.Dir n' d ↔ v.Dir n d) : v.link n' d p = v.link n d p := by
  unfold link
  simp only [h]

/-- A directory has an entry with the name, and all of them name `c`. -/
def Maps (v : View) (d : Nat) (name : List Byte) (c : Nat → Prop) : Prop :=
  (∃ p ∈ v.places d, (v.at? p).inode ≠ 0 ∧ (v.at? p).bytes = name) ∧
    ∀ p ∈ v.places d, (v.at? p).inode ≠ 0 → (v.at? p).bytes = name → c (v.at? p).inode

/-- The directories can be read and own their blocks. -/
structure Shape (v : View) (n : Nat) : Prop where
  first : v.firstDataBlock = 35
  root : v.rootInode = 1
  root_dir : v.Dir n 1
  directory : ∀ d, v.Dir n d → v.Directory d
  file : ∀ i, v.Node n i → (v.inode i).fileType ≠ typeDirectory → v.slots i = []
  /-- Block 35 is the root's without being marked. -/
  marked : ∀ i, v.Node n i → ∀ b ∈ v.slots i, (i = 1 ∧ b = 35) ∨ (v.marked b = true ∧ b ≠ 35)
  zero : v.marked 0 = true
  nodup : ∀ i, v.Node n i → (v.slots i).Nodup
  apart : ∀ i j b, v.Node n i → v.Node n j → b ∈ v.slots i → b ∈ v.slots j → i = j
  dot : ∀ d, v.Dir n d → v.Maps d dotName (· = d)
  dot_dot : ∀ d, v.Dir n d → v.Maps d dotDotName fun _ => True

/-- The entries form a tree, and `..` leads to the container. -/
structure Sound (v : View) (n : Nat) : Prop extends Shape v n where
  parent : ∀ d, v.Dir n d → ∀ p ∈ v.places d, (v.at? p).inode ≠ 0 → (v.at? p).bytes = dotDotName →
    if d = 1 then (v.at? p).inode = 1 else ∃ q, v.link n (v.at? p).inode q = some d
  tree : IsTree (v.Node n) (v.link n) 1

/-! ## Views that agree on the tree -/

/-- A node that is the same in both views. -/
structure SameNode (v v' : View) (d : Nat) : Prop where
  inode : v'.inode d = v.inode d
  entry : ∀ b ∈ v.slots d, v'.entry b = v.entry b

namespace SameNode

variable (h : SameNode v v' d)
include h

theorem slots : v'.slots d = v.slots d := by
  unfold View.slots
  rw [h.inode]

theorem places : v'.places d = v.places d := by
  unfold View.places
  rw [h.slots]

theorem at? (hp : p ∈ v.places d) : v'.at? p = v.at? p := by
  unfold View.at?
  rw [h.entry p.1 (mem_places.mp hp).1]

theorem maps {c : Nat → Prop} (hmaps : v.Maps d name c) : v'.Maps d name c := by
  unfold Maps at *
  rw [h.places]
  obtain ⟨⟨p, hp, hlive, hname⟩, hall⟩ := hmaps
  refine ⟨⟨p, hp, by rwa [h.at? hp], by rwa [h.at? hp]⟩, fun q hq => ?_⟩
  rw [h.at? hq]
  exact hall q hq

theorem directory (hdir : v.Directory d) : v'.Directory d where
  pos := hdir.pos
  le := hdir.le
  fileType := h.inode ▸ hdir.fileType
  inodeNum := h.inode ▸ hdir.inodeNum
  fits := h.inode ▸ hdir.fits
  few := h.inode ▸ hdir.few
  slots := h.slots ▸ hdir.slots
  readable := by
    rw [h.places]
    intro p hp
    rw [h.at? hp]
    exact hdir.readable p hp

end SameNode

/-- The two views agree on what the nodes of `v` are made of. -/
structure Agrees (v v' : View) (n n' : Nat) : Prop where
  first : v'.firstDataBlock = v.firstDataBlock
  root : v'.rootInode = v.rootInode
  node : ∀ i, v'.Node n' i ↔ v.Node n i
  inode : ∀ i, v.Node n i → v'.inode i = v.inode i
  entry : ∀ i, v.Node n i → ∀ b ∈ v.slots i, v'.entry b = v.entry b
  marked : ∀ i, v.Node n i → ∀ b ∈ v.slots i, v.marked b = true → v'.marked b = true
  zero : v.marked 0 = true → v'.marked 0 = true

namespace Agrees

variable {n' : Nat} (h : Agrees v v' n n')
include h

theorem dir : v'.Dir n' d ↔ v.Dir n d := by
  unfold Dir
  constructor
  · rintro ⟨hnode, htype⟩
    have hnode := (h.node d).mp hnode
    exact ⟨hnode, h.inode d hnode ▸ htype⟩
  · rintro ⟨hnode, htype⟩
    exact ⟨(h.node d).mpr hnode, (h.inode d hnode).symm ▸ htype⟩

theorem same (hd : v.Node n d) : SameNode v v' d := ⟨h.inode d hd, h.entry d hd⟩

theorem link (d : Nat) (p : Nat × Nat) : v'.link n' d p = v.link n d p := by
  unfold View.link
  by_cases hd : v.Dir n d
  · rw [(h.same hd.1).places]
    by_cases hp : p ∈ v.places d
    · simp only [h.dir, hd, hp, (h.same hd.1).at? hp]
    · simp only [hp, false_and, and_false, if_false]
  · simp only [h.dir, hd, false_and, if_false]

/-- Views that agree on the nodes have the same shape. -/
theorem shape (hs : Shape v n) : Shape v' n' where
  first := h.first.trans hs.first
  root := h.root.trans hs.root
  root_dir := h.dir.mpr hs.root_dir
  directory d hd := (h.same (h.dir.mp hd).1).directory (hs.directory d (h.dir.mp hd))
  file i hi htype := by
    have hi := (h.node i).mp hi
    rw [(h.same hi).slots]
    exact hs.file i hi (h.inode i hi ▸ htype)
  marked i hi b hb := by
    have hi := (h.node i).mp hi
    rw [(h.same hi).slots] at hb
    exact (hs.marked i hi b hb).imp id fun hm => ⟨h.marked i hi b hb hm.1, hm.2⟩
  zero := h.zero hs.zero
  nodup i hi := by
    have hi := (h.node i).mp hi
    rw [(h.same hi).slots]
    exact hs.nodup i hi
  apart i j b hi hj := by
    have hi := (h.node i).mp hi
    have hj := (h.node j).mp hj
    rw [(h.same hi).slots, (h.same hj).slots]
    exact hs.apart i j b hi hj
  dot d hd := (h.same (h.dir.mp hd).1).maps (hs.dot d (h.dir.mp hd))
  dot_dot d hd := (h.same (h.dir.mp hd).1).maps (hs.dot_dot d (h.dir.mp hd))

theorem sound (hs : Sound v n) : Sound v' n' where
  toShape := h.shape hs.toShape
  parent d hd := by
    have hd := h.dir.mp hd
    rw [(h.same hd.1).places]
    intro p hp
    rw [(h.same hd.1).at? hp]
    simp only [h.link]
    exact hs.parent d hd p hp
  tree := hs.tree.congr h.node h.link

end Agrees

/-! ## A new block -/

theorem usedSlots_grown {r : HomeInode} (hr : r.directBlocks.length = maxDirectBlocks)
    (hfew : r.blocksUsed < maxDirectBlocks) (b : Nat) :
    usedSlots (grown r b) = usedSlots r ++ [b] := by
  have hlt : r.blocksUsed < (r.directBlocks.set r.blocksUsed b).length := by
    rw [List.length_set]
    omega
  show (r.directBlocks.set r.blocksUsed b).take (r.blocksUsed + 1) = _
  rw [List.take_succ_eq_append_getElem hlt, List.getElem_set_self,
    List.take_set_of_le (Nat.le_refl _)]
  rfl

theorem at?_grow_new (hp : p.1 = b) : (v.grow d b).at? p = DirEntry.empty := by
  subst hp
  simp [grow, View.at?]

theorem at?_grow_old (hp : p.1 ≠ b) : (v.grow d b).at? p = v.at? p := by
  simp [grow, View.at?, hp]

theorem inode_grow (hi : i ≠ d) : (v.grow d b).inode i = v.inode i := update_of_ne hi _ _

theorem fileType_grow (i : Nat) : ((v.grow d b).inode i).fileType = (v.inode i).fileType := by
  by_cases hi : i = d
  · subst hi
    simp [grow, grown]
  · rw [inode_grow hi]

theorem dir_grow : (v.grow d b).Dir n i ↔ v.Dir n i := by
  unfold Dir
  rw [fileType_grow]
  rfl

section

variable (hfits : (v.inode d).Fits) (hfew : (v.inode d).blocksUsed < maxDirectBlocks)
include hfits hfew

theorem slots_grow_self : (v.grow d b).slots d = v.slots d ++ [b] := by
  show usedSlots (update v.inode d (grown (v.inode d) b) d) = _
  rw [update_self, usedSlots_grown hfits.slots hfew]
  rfl

theorem mem_slots_grow : c ∈ (v.grow d b).slots i ↔ c ∈ v.slots i ∨ (i = d ∧ c = b) := by
  by_cases hi : i = d
  · subst hi
    simp [slots_grow_self hfits hfew]
  · have hslots : (v.grow d b).slots i = v.slots i := by
      show usedSlots (update v.inode d _ i) = _
      rw [update_of_ne hi]
      rfl
    simp [hslots, hi]

theorem mem_places_grow : p ∈ (v.grow d b).places i ↔
    p ∈ v.places i ∨ (i = d ∧ p.1 = b ∧ p.2 < entriesPerBlock) := by
  unfold View.places
  rw [mem_places, mem_places, mem_slots_grow hfits hfew]
  tauto

/-- A live place is an old one. -/
theorem live_grow (hp : p ∈ (v.grow d b).places i) (hlive : ((v.grow d b).at? p).inode ≠ 0) :
    p ∈ v.places i ∧ (v.grow d b).at? p = v.at? p := by
  have hpb : p.1 ≠ b := by
    intro hnew
    rw [at?_grow_new hnew] at hlive
    exact hlive rfl
  exact ⟨((mem_places_grow hfits hfew).mp hp).resolve_right fun h => hpb h.2.1, at?_grow_old hpb⟩

end

theorem Listing.grow (h : v.Listing d) (hfew : (v.inode d).blocksUsed < maxDirectBlocks)
    (hb : b < maxDataBlocks) (hzero : b ≠ 0) : (v.grow d b).Listing d := by
  have hinode : (v.grow d b).inode d = grown (v.inode d) b := update_self d _ v.inode
  refine ⟨h.pos, h.le, ?_, ?_, ?_, fun c hc => ?_, fun q hq hne => ?_⟩
  · rw [hinode]
    exact h.fileType
  · rw [hinode]
    exact h.inodeNum
  · rw [hinode]
    exact grown_fits h.fits hb hfew
  · rcases (mem_slots_grow h.fits hfew).mp hc with hc | ⟨-, rfl⟩
    · exact h.slots c hc
    · exact ⟨hb, hzero⟩
  · obtain ⟨hmem, heq⟩ := live_grow h.fits hfew hq hne
    rw [heq] at hne ⊢
    exact h.readable q hmem hne

section

variable (hs : Shape v n) (hd : v.Dir n d) (hfew : (v.inode d).blocksUsed < maxDirectBlocks)
  (hb : b < maxDataBlocks) (hclear : v.marked b = false) (hroot : b ≠ 35)
include hs hd hfew hb hclear hroot

omit hd hfew hb in
/-- No node owns a block that is not marked. -/
theorem Shape.fresh (hi : v.Node n i) : b ∉ v.slots i := by
  intro hmem
  rcases hs.marked i hi b hmem with ⟨-, rfl⟩ | ⟨hmarked, -⟩
  · exact hroot rfl
  · rw [hclear] at hmarked
    cases hmarked

omit hd hfew hb in
theorem same_grow (hi : v.Node n i) (hid : i ≠ d) : SameNode v (v.grow d b) i := by
  refine ⟨inode_grow hid, fun c hc => update_of_ne ?_ _ _⟩
  rintro rfl
  exact hs.fresh hclear hroot hi hc

omit hd hfew hb in
theorem at?_grow (hi : v.Node n i) (hp : p ∈ v.places i) : (v.grow d b).at? p = v.at? p := by
  apply at?_grow_old
  rintro rfl
  exact hs.fresh hclear hroot hi (mem_places.mp hp).1

omit hb in
theorem maps_grow {c : Nat → Prop} (hi : v.Dir n i) (hmaps : v.Maps i name c) :
    (v.grow d b).Maps i name c := by
  have hfits := (hs.directory d hd).fits
  obtain ⟨⟨p, hp, hlive, hname⟩, hall⟩ := hmaps
  have hsame := at?_grow (d := d) hs hclear hroot hi.1 hp
  refine ⟨⟨p, (mem_places_grow hfits hfew).mpr (.inl hp), ?_, ?_⟩, fun q hq hlive' hname' => ?_⟩
  · rwa [hsame]
  · rwa [hsame]
  · obtain ⟨hq, heq⟩ := live_grow hfits hfew hq hlive'
    rw [heq] at hlive' hname' ⊢
    exact hall q hq hlive' hname'

theorem Shape.grow : Shape (v.grow d b) n where
  first := hs.first
  root := hs.root
  root_dir := dir_grow.mpr hs.root_dir
  directory i hi := by
    have hi := dir_grow.mp hi
    have hdir := hs.directory i hi
    -- only the directory that grows is another node than before
    by_cases hid : i = d
    swap
    · exact (same_grow hs hclear hroot hi.1 hid).directory hdir
    subst hid
    have hzero : b ≠ 0 := by
      rintro rfl
      cases hclear.symm.trans hs.zero
    have hgrown := hdir.listing.grow hfew hb hzero
    refine { hgrown with few := ?_ }
    simpa [View.grow, grown] using hfew
  file i hi htype := by
    rw [fileType_grow] at htype
    have hid : i ≠ d := by
      rintro rfl
      exact htype hd.2
    rw [(same_grow hs hclear hroot hi hid).slots]
    exact hs.file i hi htype
  marked i hi c hc := by
    rcases (mem_slots_grow (hs.directory d hd).fits hfew).mp hc with hold | ⟨-, rfl⟩
    · refine (hs.marked i hi c hold).imp id fun hm => ⟨?_, hm.2⟩
      have hcb : c ≠ b := by
        rintro rfl
        exact hs.fresh hclear hroot hi hold
      exact (update_of_ne hcb _ _).trans hm.1
    · exact .inr ⟨update_self .., hroot⟩
  zero := by
    have hzero : 0 ≠ b := by
      rintro rfl
      cases hclear.symm.trans hs.zero
    exact (update_of_ne hzero _ _).trans hs.zero
  nodup i hi := by
    by_cases hid : i = d
    · subst hid
      rw [slots_grow_self (hs.directory i hd).fits hfew]
      exact List.nodup_append.mpr ⟨hs.nodup i hi, List.nodup_singleton b, fun c hc c' hc' => by
        rintro rfl
        exact hs.fresh hclear hroot hi (List.mem_singleton.mp hc' ▸ hc)⟩
    · rw [(same_grow hs hclear hroot hi hid).slots]
      exact hs.nodup i hi
  apart i j c hi hj hci hcj := by
    -- a block that was clear is held by nobody, so two holders were holders before
    rcases (mem_slots_grow (hs.directory d hd).fits hfew).mp hci with hold | ⟨hid, hcb⟩ <;>
      rcases (mem_slots_grow (hs.directory d hd).fits hfew).mp hcj with hold' | ⟨hjd, hcb'⟩
    · exact hs.apart i j c hi hj hold hold'
    · exact absurd (hcb' ▸ hold) (hs.fresh hclear hroot hi)
    · exact absurd (hcb ▸ hold') (hs.fresh hclear hroot hj)
    · exact hid.trans hjd.symm
  dot i hi := maps_grow hs hd hfew hclear hroot (dir_grow.mp hi) (hs.dot i (dir_grow.mp hi))
  dot_dot i hi := maps_grow hs hd hfew hclear hroot (dir_grow.mp hi) (hs.dot_dot i (dir_grow.mp hi))

omit hb in
theorem link_grow (i : Nat) (p : Nat × Nat) : (v.grow d b).link n i p = v.link n i p := by
  have hfits := (hs.directory d hd).fits
  apply Option.ext
  intro c
  show (v.grow d b).link n i p = some c ↔ v.link n i p = some c
  rw [link_eq_some, link_eq_some, dir_grow]
  constructor
  · rintro ⟨hi, hp, hlive, hdot, hc⟩
    obtain ⟨hp, heq⟩ := live_grow hfits hfew hp hlive
    rw [heq] at hlive hdot hc
    exact ⟨hi, hp, hlive, hdot, hc⟩
  · rintro ⟨hi, hp, hlive, hdot, hc⟩
    rw [at?_grow hs hclear hroot hi.1 hp]
    exact ⟨hi, (mem_places_grow hfits hfew).mpr (.inl hp), hlive, hdot, hc⟩

end

/-- A directory with one more block, in which nothing is entered yet. -/
theorem Sound.grow (hs : Sound v n) (hd : v.Dir n d)
    (hfew : (v.inode d).blocksUsed < maxDirectBlocks)
    (hb : b < maxDataBlocks) (hclear : v.marked b = false) (hroot : b ≠ 35) :
    Sound (v.grow d b) n where
  toShape := hs.toShape.grow hd hfew hb hclear hroot
  parent i hi p hp hlive hname := by
    have hi := dir_grow.mp hi
    obtain ⟨hp, heq⟩ := live_grow (hs.directory d hd).fits hfew hp hlive
    rw [heq] at hlive hname ⊢
    simp only [link_grow hs.toShape hd hfew hclear hroot]
    exact hs.parent i hi p hp hlive hname
  tree := hs.tree.congr (fun _ => .rfl) (link_grow hs.toShape hd hfew hclear hroot)

/-! ## Writing an entry -/

theorem at?_put_ne (h : q ≠ p) : (v.put p e).at? q = v.at? q := by
  rw [at?_put, if_neg h]

theorem at?_put_self : (v.put p e).at? p = e := by
  rw [at?_put, if_pos rfl]

/-- A dot is neither overwritten nor written. -/
theorem maps_put {c : Nat → Prop} (hname : name = dotName ∨ name = dotDotName)
    (hold : (v.at? p).inode ≠ 0 → ¬(v.at? p).IsDot) (hnew : e.inode ≠ 0 → ¬e.IsDot)
    (hmaps : v.Maps i name c) :
    (v.put p e).Maps i name c := by
  have hdot : ∀ e : DirEntry, e.bytes = name → e.IsDot := by
    rintro e rfl
    exact hname
  obtain ⟨⟨q, hq, hlive, hbytes⟩, hall⟩ := hmaps
  have hqp : q ≠ p := by
    rintro rfl
    exact hold hlive (hdot _ hbytes)
  refine ⟨⟨q, hq, by rwa [at?_put_ne hqp], by rwa [at?_put_ne hqp]⟩,
    fun q' hq' hlive' hbytes' => ?_⟩
  by_cases hqp' : q' = p
  · subst hqp'
    rw [at?_put_self] at hlive' hbytes'
    exact absurd (hdot _ hbytes') (hnew hlive')
  · rw [at?_put_ne hqp'] at hlive' hbytes' ⊢
    exact hall q' hq' hlive' hbytes'

/-- Entries other than `.` and `..` can be replaced. -/
theorem Shape.put (hs : Shape v n) (hold : (v.at? p).inode ≠ 0 → ¬(v.at? p).IsDot)
    (hnew : e.inode ≠ 0 → e.Readable ∧ ¬e.IsDot) : Shape (v.put p e) n := by
  refine { hs with
    directory := fun i hi => ?_, dot := fun i hi => ?_, dot_dot := fun i hi => ?_ }
  · have hdir := hs.directory i hi
    refine { hdir with readable := ?_ }
    intro q hq hlive
    by_cases hqp : q = p
    · subst hqp
      rw [at?_put_self] at hlive ⊢
      exact (hnew hlive).1
    · rw [at?_put_ne hqp] at hlive ⊢
      exact hdir.readable q hq hlive
  · exact maps_put (.inl rfl) hold (fun hlive => (hnew hlive).2) (hs.dot i hi)
  · exact maps_put (.inr rfl) hold (fun hlive => (hnew hlive).2) (hs.dot_dot i hi)

/-- One link changes. -/
theorem link_put (hs : Shape v n) (hd : v.Dir n d) (hp : p ∈ v.places d) (i : Nat) (q : Nat × Nat) :
    (v.put p e).link n i q =
      if i = d ∧ q = p then (if e.inode ≠ 0 ∧ ¬e.IsDot then some e.inode else none)
      else v.link n i q := by
  by_cases hqp : q = p
  · subst hqp
    by_cases hid : i = d
    · subst hid
      rw [if_pos ⟨rfl, rfl⟩]
      unfold link
      rw [at?_put_self]
      have hd' : (v.put q e).Dir n i := hd
      have hp' : q ∈ (v.put q e).places i := hp
      simp only [hd', hp', true_and]
    · -- the place belongs to one directory only
      rw [if_neg (fun h => hid h.1)]
      have hout : ¬(v.Dir n i ∧ q ∈ v.places i) := by
        rintro ⟨hi, hq⟩
        exact hid (hs.apart i d q.1 hi.1 hd.1 (mem_places.mp hq).1 (mem_places.mp hp).1)
      rw [link_eq_none.mpr fun h => hout ⟨h.1, h.2.1⟩]
      exact link_eq_none.mpr fun h => hout ⟨h.1, h.2.1⟩
  · rw [if_neg (fun h => hqp h.2)]
    unfold link
    rw [at?_put_ne hqp]
    rfl

/-! ## Room for an entry -/

/-- The first free block is not the root's. -/
theorem ne_rootBlock (hleast : ∀ c < b, v.marked c = true)
    (hbefore : ∃ c < 35, v.marked c = false) : b ≠ 35 := by
  obtain ⟨c, hc, hfree⟩ := hbefore
  rintro rfl
  cases hfree.symm.trans (hleast c hc)

/-- A place that is free, in a sound view. -/
theorem Sound.room (hs : Sound v n) (hd : v.Dir n d) (hroom : v.Room d w p)
    (hbefore : ∃ c < 35, v.marked c = false) :
    Sound w n ∧ w.Dir n d ∧ p ∈ w.places d ∧ (w.at? p).inode = 0 := by
  cases hroom with
  | hole hp hdead => exact ⟨hs, hd, hp, hdead⟩
  | @block b hb hclear hleast hfew =>
    refine ⟨hs.grow hd hfew hb hclear (ne_rootBlock hleast hbefore), dir_grow.mpr hd, ?_, ?_⟩
    · exact (mem_places_grow (hs.directory d hd).fits hfew).mpr (.inr ⟨rfl, rfl, Nat.zero_lt_two⟩)
    · rw [at?_grow_new (p := (b, 0)) rfl]
      rfl

/-- Making room changes no link and no type. -/
theorem Shape.room (hs : Shape v n) (hd : v.Dir n d) (hroom : v.Room d w p)
    (hbefore : ∃ c < 35, v.marked c = false) :
    (∀ i q, w.link n i q = v.link n i q) ∧ ∀ i, (w.inode i).fileType = (v.inode i).fileType := by
  cases hroom with
  | hole => exact ⟨fun _ _ => rfl, fun _ => rfl⟩
  | block hb hclear hleast hfew =>
    exact ⟨link_grow hs hd hfew hclear (ne_rootBlock hleast hbefore), fileType_grow⟩

/-! ## Removing a leaf -/

/-- What an entry names is allocated, and a directory if the entry is a dot. -/
theorem Sound.entry_node (hs : Sound v 0) (hd : v.Dir 0 d) (hp : p ∈ v.places d)
    (hlive : (v.at? p).inode ≠ 0) :
    v.Node 0 (v.at? p).inode ∧ ((v.at? p).IsDot → v.Dir 0 (v.at? p).inode) := by
  by_cases hdot : (v.at? p).IsDot
  · have hdir : v.Dir 0 (v.at? p).inode := by
      rcases hdot with hname | hname
      · rw [(hs.dot d hd).2 p hp hlive hname]
        exact hd
      · have hparent := hs.parent d hd p hp hlive hname
        split at hparent
        · rw [hparent]
          exact hs.root_dir
        · obtain ⟨q, hq⟩ := hparent
          exact (link_eq_some.mp hq).1
    exact ⟨hdir.1, fun _ => hdir⟩
  · have hlink : v.link 0 d p = some (v.at? p).inode := link_eq_some.mpr ⟨hd, hp, hlive, hdot, rfl⟩
    exact ⟨(hs.tree.valid _ _ _ hlink).2, fun h => absurd h hdot⟩

/-- A directory with two live entries has its dots only. -/
theorem Shape.leaf (hs : Shape v 0) (hc : v.Dir 0 c)
    (hcount : ((v.places c).countP fun p => (v.at? p).inode ≠ 0) ≤ 2)
    (q : Nat × Nat) :
    v.link 0 c q = none := by
  refine link_eq_none.mpr ?_
  rintro ⟨-, hq, hlive, hdot⟩
  obtain ⟨⟨p1, hp1, hlive1, hname1⟩, -⟩ := hs.dot c hc
  obtain ⟨⟨p2, hp2, hlive2, hname2⟩, -⟩ := hs.dot_dot c hc
  have hne12 : p1 ≠ p2 := by
    rintro rfl
    cases hname1.symm.trans hname2
  have hne1 : p1 ≠ q := by
    rintro rfl
    exact hdot (.inl hname1)
  have hne2 : p2 ≠ q := by
    rintro rfl
    exact hdot (.inr hname2)
  have hnodup : [p1, p2, q].Nodup := by simp [hne12, hne1, hne2]
  have hsub : [p1, p2, q] ⊆ (v.places c).filter fun p => (v.at? p).inode ≠ 0 := by
    intro r hr
    simp only [List.mem_cons, List.not_mem_nil, or_false] at hr
    rcases hr with rfl | rfl | rfl <;> simp [*]
  have hlen := (hnodup.subperm hsub).length_le
  rw [← List.countP_eq_length_filter] at hlen
  simp only [List.length_cons, List.length_nil] at hlen
  omega

/-- Fewer nodes. -/
theorem Shape.without (hs : Shape v 0) (hc : c ≠ 1) : Shape v c := by
  have hnode : ∀ i, v.Node c i → v.Node 0 i := fun i hi => ⟨hi.1, hi.2.1, by have := hi.1.1; omega⟩
  have hdir : ∀ i, v.Dir c i → v.Dir 0 i := fun i hi => ⟨hnode i hi.1, hi.2⟩
  refine ⟨hs.first, hs.root, ⟨⟨hs.root_dir.1.1, hs.root_dir.1.2.1, hc.symm⟩, hs.root_dir.2⟩,
    fun i hi => hs.directory i (hdir i hi), fun i hi => hs.file i (hnode i hi),
    fun i hi => hs.marked i (hnode i hi), hs.zero, fun i hi => hs.nodup i (hnode i hi),
    fun i j b hi hj => hs.apart i j b (hnode i hi) (hnode j hj), fun i hi => hs.dot i (hdir i hi),
    fun i hi => hs.dot_dot i (hdir i hi)⟩

theorem dir_zero (h : d ≠ c) : v.Dir c d ↔ v.Dir 0 d := by
  unfold Dir Node
  constructor
  · rintro ⟨⟨hrange, hused, -⟩, htype⟩
    exact ⟨⟨hrange, hused, by omega⟩, htype⟩
  · rintro ⟨⟨hrange, hused, -⟩, htype⟩
    exact ⟨⟨hrange, hused, h⟩, htype⟩

/-- A node without entries of its own loses its entry. -/
theorem Sound.detach (hs : Sound v 0) (hlink : v.link 0 d p = some c)
    (hleaf : ∀ q, v.link 0 c q = none) : Sound (v.put p DirEntry.empty) c := by
  obtain ⟨hd, hp, hlive, hdot, hinode⟩ := link_eq_some.mp hlink
  have hc : c ≠ 1 := fun heq => hs.tree.root_unlinked d p (heq ▸ hlink)
  have hdc : d ≠ c := by
    rintro rfl
    rw [hleaf p] at hlink
    cases hlink
  have hshape := hs.toShape.without hc
  have hsame : ∀ i q, v.link c i q = v.link 0 i q := by
    intro i q
    by_cases hi : i = c
    · rw [hi, hleaf q]
      exact link_eq_none.mpr fun h => h.1.1.2.2 rfl
    · exact link_congr (dir_zero hi)
  have hlink' : ∀ i q x, (v.put p DirEntry.empty).link c i q = some x ↔
      ¬(i = d ∧ q = p) ∧ v.link 0 i q = some x := by
    intro i q x
    rw [link_put hshape ((dir_zero hdc).mpr hd) hp, hsame]
    by_cases hiq : i = d ∧ q = p
    · simp [hiq, DirEntry.empty]
    · simp [hiq]
  refine ⟨hshape.put (fun _ => hdot) (fun h => absurd rfl h), fun i hi q hq hlive' hname => ?_, ?_⟩
  · -- the container of another directory keeps its entry for it
    have hic : i ≠ c := hi.1.2.2
    have hqp : q ≠ p := by
      rintro rfl
      rw [at?_put_self] at hlive'
      exact hlive' rfl
    rw [at?_put_ne hqp] at hlive' hname ⊢
    have hparent := hs.parent i ((dir_zero hic).mp hi) q hq hlive' hname
    split
    · rwa [if_pos ‹_›] at hparent
    · rw [if_neg ‹_›] at hparent
      obtain ⟨r, hr⟩ := hparent
      refine ⟨r, (hlink' _ r i).mpr ⟨?_, hr⟩⟩
      rintro ⟨hx, rfl⟩
      rw [hx, hlink] at hr
      exact hic (Option.some.inj hr).symm
  · refine hs.tree.remove hlink hleaf (fun i => ?_) hlink'
    show v.Node c i ↔ v.Node 0 i ∧ i ≠ c
    unfold Node
    constructor
    · rintro ⟨hrange, hused, hic⟩
      exact ⟨⟨hrange, hused, by omega⟩, hic⟩
    · rintro ⟨⟨hrange, hused, -⟩, hic⟩
      exact ⟨hrange, hused, hic⟩

/-! ## Moving an entry -/

/-- An entry moves to a free place; a directory stays in its container. -/
theorem Sound.move {d' : Nat} (hs : Sound v 0) (hlink : v.link 0 d p = some c) (hd' : v.Dir 0 d')
    (hq : q ∈ v.places d') (hdead : (v.at? q).inode = 0) (he : e.inode = c)
    (hread : e.Readable) (hdot' : ¬e.IsDot)
    (hstay : (v.inode c).fileType = typeDirectory → d' = d) :
    Sound ((v.put q e).put p DirEntry.empty) 0 := by
  obtain ⟨hd, hp, hlive, hdot, hinode⟩ := link_eq_some.mp hlink
  have hpq : p ≠ q := by
    rintro rfl
    exact hlive hdead
  have hc : c ≠ 0 := hinode ▸ hlive
  have hfirst : Shape (v.put q e) 0 :=
    hs.toShape.put (fun h => absurd hdead h) fun _ => ⟨hread, hdot'⟩
  have hnone : v.link 0 d' q = none := link_eq_none.mpr fun h => h.2.2.1 hdead
  have hlink' : ∀ i k x, ((v.put q e).put p DirEntry.empty).link 0 i k = some x ↔
      (i = d' ∧ k = q ∧ x = c) ∨ (¬(i = d' ∧ k = q) ∧ ¬(i = d ∧ k = p) ∧
        v.link 0 i k = some x) := by
    intro i k x
    rw [link_put hfirst (d := d) hd hp, link_put hs.toShape hd' hq]
    by_cases hip : i = d ∧ k = p
    · obtain ⟨rfl, rfl⟩ := hip
      simp [DirEntry.empty, hpq]
    · rw [if_neg hip]
      by_cases hiq : i = d' ∧ k = q
      · obtain ⟨rfl, rfl⟩ := hiq
        rw [if_pos ⟨rfl, rfl⟩, if_pos ⟨he.symm ▸ hc, hdot'⟩, he]
        simp [eq_comm]
      · rw [if_neg hiq]
        tauto
  -- the new container is not below the node
  have hbelow : ¬ReflTransGen (Child (v.link 0)) c d' := by
    intro hpath
    by_cases htype : (v.inode c).fileType = typeDirectory
    · rw [hstay htype] at hpath
      exact hs.tree.acyclic c (TransGen.tail' hpath ⟨p, hlink⟩)
    · rcases ReflTransGen.cases_head hpath with rfl | ⟨x, ⟨k, hk⟩, -⟩
      · exact htype hd'.2
      · exact htype (link_eq_some.mp hk).1.2
  refine ⟨hfirst.put (p := p) ?_ (fun h => absurd rfl h), fun i hi k hk hlive' hname => ?_, ?_⟩
  · rw [at?_put_ne hpq]
    exact fun _ => hdot
  · have hkp : k ≠ p := by
      rintro rfl
      rw [at?_put_self] at hlive'
      exact hlive' rfl
    have hkq : k ≠ q := by
      rintro rfl
      rw [at?_put_ne hkp, at?_put_self] at hname
      exact hdot' (.inr hname)
    rw [at?_put_ne hkp, at?_put_ne hkq] at hlive' hname ⊢
    have hparent := hs.parent i hi k hk hlive' hname
    split
    · rwa [if_pos ‹_›] at hparent
    · rw [if_neg ‹_›] at hparent
      obtain ⟨r, hr⟩ := hparent
      by_cases hic : i = c
      · -- the moved directory stayed in its container
        subst hic
        obtain ⟨hx, -⟩ := hs.tree.once _ _ _ _ _ hr hlink
        rw [hx, ← hstay hi.2]
        exact ⟨q, (hlink' d' q i).mpr (.inl ⟨rfl, rfl, rfl⟩)⟩
      · refine ⟨r, (hlink' _ r i).mpr (.inr ⟨?_, ?_, hr⟩)⟩
        · rintro ⟨hx, rfl⟩
          rw [hx, hnone] at hr
          cases hr
        · rintro ⟨hx, rfl⟩
          rw [hx, hlink] at hr
          exact hic (Option.some.inj hr).symm
  · exact hs.tree.move hlink hd'.1 hnone hbelow (fun _ => .rfl) hlink'

/-! ## A new node -/

/-- An allocated inode that can become an entry of `d`. -/
structure Ready (v : View) (n d : Nat) : Prop where
  range : 0 < n ∧ n < maxInodes
  used : v.used n = true
  directory : (v.inode n).fileType = typeDirectory → v.Directory n
  file : (v.inode n).fileType ≠ typeDirectory → v.slots n = []
  marked : ∀ b ∈ v.slots n, v.marked b = true ∧ b ≠ 35
  nodup : (v.slots n).Nodup
  apart : ∀ i b, v.Node n i → b ∈ v.slots i → b ∉ v.slots n
  dot : (v.inode n).fileType = typeDirectory → v.Maps n dotName (· = n)
  dot_dot : (v.inode n).fileType = typeDirectory → v.Maps n dotDotName (· = d)
  only : ∀ p ∈ v.places n, (v.at? p).inode ≠ 0 → (v.at? p).IsDot

namespace Ready

section

variable (hr : Ready v n d)
include hr

theorem node : v.Node 0 i ↔ v.Node n i ∨ i = n := by
  unfold Node
  constructor
  · rintro ⟨hrange, hused, -⟩
    by_cases hi : i = n
    · exact .inr hi
    · exact .inl ⟨hrange, hused, hi⟩
  · rintro (⟨hrange, hused, -⟩ | rfl)
    · exact ⟨hrange, hused, by omega⟩
    · exact ⟨hr.range, hr.used, by have := hr.range; omega⟩

theorem dir : v.Dir 0 i ↔ v.Dir n i ∨ (i = n ∧ (v.inode n).fileType = typeDirectory) := by
  unfold Dir
  rw [hr.node]
  constructor
  · rintro ⟨hi | rfl, htype⟩
    · exact .inl ⟨hi, htype⟩
    · exact .inr ⟨rfl, htype⟩
  · rintro (⟨hi, htype⟩ | ⟨rfl, htype⟩)
    · exact ⟨.inl hi, htype⟩
    · exact ⟨.inr rfl, htype⟩

/-- The inode is counted as a node. -/
theorem shape (hs : Shape v n) : Shape v 0 where
  first := hs.first
  root := hs.root
  root_dir := hr.dir.mpr (.inl hs.root_dir)
  directory i hi := by
    rcases hr.dir.mp hi with hi | ⟨rfl, htype⟩
    · exact hs.directory i hi
    · exact hr.directory htype
  file i hi := by
    rcases hr.node.mp hi with hi | rfl
    · exact hs.file i hi
    · exact hr.file
  marked i hi := by
    rcases hr.node.mp hi with hi | rfl
    · exact hs.marked i hi
    · exact fun b hb => .inr (hr.marked b hb)
  zero := hs.zero
  nodup i hi := by
    rcases hr.node.mp hi with hi | rfl
    · exact hs.nodup i hi
    · exact hr.nodup
  apart i j b hi hj hbi hbj := by
    rcases hr.node.mp hi with hi | rfl <;> rcases hr.node.mp hj with hj | rfl
    · exact hs.apart i j b hi hj hbi hbj
    · exact absurd hbj (hr.apart i b hi hbi)
    · exact absurd hbi (hr.apart j b hj hbj)
    · rfl
  dot i hi := by
    rcases hr.dir.mp hi with hi | ⟨rfl, htype⟩
    · exact hs.dot i hi
    · exact hr.dot htype
  dot_dot i hi := by
    rcases hr.dir.mp hi with hi | ⟨rfl, htype⟩
    · exact hs.dot_dot i hi
    · exact ⟨(hr.dot_dot htype).1, fun _ _ _ _ => trivial⟩

/-- A new inode has no entries but its dots. -/
theorem link (i : Nat) (q : Nat × Nat) : v.link 0 i q = v.link n i q := by
  by_cases hi : i = n
  · subst hi
    rw [link_eq_none.mpr fun h => h.2.2.2 (hr.only q h.2.1 h.2.2.1)]
    exact (link_eq_none.mpr fun h => h.1.1.2.2 rfl).symm
  · exact (link_congr (dir_zero hi)).symm

/-- The container gets another block. -/
theorem grow (hs : Shape v n) (hd : v.Dir n d)
    (hfew : (v.inode d).blocksUsed < maxDirectBlocks) (hclear : v.marked b = false) :
    Ready (v.grow d b) n d := by
  have hnd : n ≠ d := fun heq => hd.1.2.2 heq.symm
  have hfresh : ∀ c ∈ v.slots n, c ≠ b := by
    rintro c hc rfl
    rw [(hr.marked c hc).1] at hclear
    cases hclear
  have hsame : SameNode v (v.grow d b) n :=
    ⟨inode_grow hnd, fun c hc => update_of_ne (hfresh c hc) _ _⟩
  refine ⟨hr.range, hr.used, ?_, ?_, ?_, ?_, ?_, ?_, ?_, ?_⟩
  · rw [hsame.inode]
    exact fun htype => hsame.directory (hr.directory htype)
  · rw [hsame.inode, hsame.slots]
    exact hr.file
  · rw [hsame.slots]
    intro c hc
    exact ⟨(update_of_ne (hfresh c hc) _ _).trans (hr.marked c hc).1, (hr.marked c hc).2⟩
  · rw [hsame.slots]
    exact hr.nodup
  · intro i c hi hc
    rw [hsame.slots]
    rcases (mem_slots_grow (hs.directory d hd).fits hfew).mp hc with hc | ⟨-, rfl⟩
    · exact hr.apart i c hi hc
    · exact fun hmem => hfresh c hmem rfl
  · rw [hsame.inode]
    exact fun htype => hsame.maps (hr.dot htype)
  · rw [hsame.inode]
    exact fun htype => hsame.maps (hr.dot_dot htype)
  · rw [hsame.places]
    intro p hp
    rw [hsame.at? hp]
    exact hr.only p hp

theorem room (hs : Shape v n) (hd : v.Dir n d) (hroom : v.Room d w p) : Ready w n d := by
  cases hroom with
  | hole => exact hr
  | block _ hclear _ hfew => exact hr.grow hs hd hfew hclear

end

end Ready

/-- The inode gets its entry. -/
theorem Sound.attach (hs : Sound v n) (hr : Ready v n d) (hd : v.Dir n d) (hp : p ∈ v.places d)
    (hdead : (v.at? p).inode = 0) (he : e.inode = n) (hread : e.Readable) (hdot : ¬e.IsDot) :
    Sound (v.put p e) 0 := by
  have hshape := hr.shape hs.toShape
  have hd0 : v.Dir 0 d := hr.dir.mpr (.inl hd)
  have hn : n ≠ 0 := by
    have := hr.range
    omega
  have hnone : v.link n d p = none := link_eq_none.mpr fun h => h.2.2.1 hdead
  have hlink' : ∀ i q x, (v.put p e).link 0 i q = some x ↔
      (i = d ∧ q = p ∧ x = n) ∨ (¬(i = d ∧ q = p) ∧ v.link n i q = some x) := by
    intro i q x
    rw [link_put hshape hd0 hp, hr.link]
    by_cases hiq : i = d ∧ q = p
    · obtain ⟨rfl, rfl⟩ := hiq
      rw [if_pos ⟨rfl, rfl⟩, if_pos ⟨he.symm ▸ hn, hdot⟩, he]
      simp [eq_comm]
    · rw [if_neg hiq]
      tauto
  refine ⟨hshape.put (fun h => absurd hdead h) (fun _ => ⟨hread, hdot⟩),
    fun i hi q hq hlive hname => ?_, ?_⟩
  · have hqp : q ≠ p := by
      rintro rfl
      rw [at?_put_self] at hname
      exact hdot (.inr hname)
    rw [at?_put_ne hqp] at hlive hname ⊢
    rcases hr.dir.mp hi with hi | ⟨rfl, htype⟩
    · have hparent := hs.parent i hi q hq hlive hname
      split
      · rwa [if_pos ‹_›] at hparent
      · rw [if_neg ‹_›] at hparent
        obtain ⟨r, hlink⟩ := hparent
        refine ⟨r, (hlink' _ r i).mpr (.inr ⟨?_, hlink⟩)⟩
        rintro ⟨hx, rfl⟩
        rw [hx, hnone] at hlink
        cases hlink
    · -- the new directory's `..` is where its entry is
      rw [if_neg hs.root_dir.1.2.2.symm, (hr.dot_dot htype).2 q hq hlive hname]
      exact ⟨p, (hlink' d p i).mpr (.inl ⟨rfl, rfl, rfl⟩)⟩
  · refine hs.tree.add hd.1 (fun hnode => hnode.2.2 rfl) (fun i => ?_) hlink' hnone
    exact hr.node

end PandaOS.Kernel.HomeFs.View
