import PandaOS.Logic.Mapping
import PandaOS.Kernel.Vm
import PandaOS.Kernel.Image

/-!
# New pages

Every function that gives a process memory does the same thing for each page:
it allocates a frame, maps it and fills it. `NewPage` is what one such step
does to the address spaces. A `PageRule` says which pages a step may add, and
`PageInv` is a property that every such step keeps.
-/

namespace PandaOS.Kernel

open Hal Lib

variable {s s' s1 s2 : KMem} {roots K : Set Nat} {mem : Nat → Nat → Word} {f g j pt va a b : Nat}
  {src : List (BitVec 8)} {data : List Byte}

/-! ## Filling a frame -/

theorem word_of_bytes (w : Word) :
    BitVec.ofNat 64 (Nat.ofDigits 256 ((List.range 8).map (byteOf w))) = w := by
  have hlt := w.isLt
  apply BitVec.eq_of_toNat_eq
  simp only [List.range_succ, List.range_zero, List.nil_append, List.cons_append, List.map_cons,
    List.map_nil, Nat.ofDigits_cons, Nat.ofDigits_nil, byteOf, BitVec.toNat_ofNat]
  generalize w.toNat = n at *
  norm_num
  omega

/-- Bytes stored inside one frame change no other frame. -/
theorem storeBytes_other {addr : Nat}
    (hlo : f * 4096 ≤ addr) (hhi : addr + src.length ≤ f * 4096 + 4096) (hg : g ≠ f) :
    storeBytes mem addr src g = mem g := by
  funext i
  unfold storeBytes
  split
  · rename_i hi
    have hbytes : ∀ j ∈ List.range 8, (fun j =>
        let a := g * 4096 + i * 8 + j
        if addr ≤ a ∧ a < addr + src.length then (src.getD (a - addr) 0).toNat
        else byteOf (mem g i) j) j = byteOf (mem g i) j := by
      intro j hj
      have hj := List.mem_range.mp hj
      simp only
      rw [if_neg]
      rintro ⟨h1, h2⟩
      rcases Nat.lt_or_gt_of_ne hg with h | h <;> omega
    rw [List.map_congr_left hbytes]
    exact word_of_bytes (mem g i)
  · rfl

theorem byteOf_lt (w : Word) (j : Nat) : byteOf w j < 256 := Nat.mod_lt _ (by omega)

/-- A byte of a word that was put together from bytes. -/
theorem byteOf_digits {g : Nat → Nat} (hg : ∀ j < 8, g j < 256) (hj : j < 8) :
    byteOf (BitVec.ofNat 64 (Nat.ofDigits 256 ((List.range 8).map g))) j = g j := by
  have hdrop := Nat.ofDigits_div_pow_eq_ofDigits_drop j (by omega : 0 < 256) ((List.range 8).map g)
    (by
      intro l hl
      obtain ⟨k, hk, rfl⟩ := List.mem_map.mp hl
      exact hg k (List.mem_range.mp hk))
  have hlt : Nat.ofDigits 256 ((List.range 8).map g) < 2 ^ 64 := by
    have := Nat.ofDigits_lt_base_pow_length (by omega : 1 < 256) (l := (List.range 8).map g)
      (by
        intro l hl
        obtain ⟨k, hk, rfl⟩ := List.mem_map.mp hl
        exact hg k (List.mem_range.mp hk))
    simpa using this
  have hcons : ((List.range 8).map g).drop j = g j :: ((List.range 8).map g).drop (j + 1) := by
    rw [List.drop_eq_getElem_cons (by simpa using hj)]
    simp
  rw [byteOf, BitVec.toNat_ofNat, Nat.mod_eq_of_lt hlt, hdrop,
    hcons, Nat.ofDigits_cons, Nat.add_mul_mod_self_left]
  exact Nat.mod_eq_of_lt (hg j hj)

/-- The bytes of a frame after a store. -/
theorem byteOf_storeBytes {addr : Nat} {i : Nat} (hi : i < 512) (hj : j < 8) :
    byteOf (storeBytes mem addr src f i) j =
      if addr ≤ f * 4096 + i * 8 + j ∧ f * 4096 + i * 8 + j < addr + src.length
      then (src.getD (f * 4096 + i * 8 + j - addr) 0).toNat else byteOf (mem f i) j := by
  unfold storeBytes
  rw [if_pos hi, byteOf_digits (fun k hk => ?_) hj]
  simp only
  split
  · exact BitVec.isLt _
  · exact byteOf_lt _ _

/-- Every byte of a frame's contents is zero or a byte of the file. -/
def FileBytes (data : List Byte) (c : Nat → Word) : Prop :=
  ∀ i < 512, ∀ j < 8, byteOf (c i) j = 0 ∨ ∃ b ∈ data, byteOf (c i) j = b.toNat

theorem FileBytes.zero (data : List Byte) : FileBytes data fun _ => 0 := by
  intro i _ j _
  left
  show 0 / 256 ^ j % 256 = 0
  rw [Nat.zero_div]

/-- A part of the file stored over such contents. -/
theorem FileBytes.store {src : List Byte} (addr : Nat)
    (h : FileBytes data (mem f)) (hsrc : src ⊆ data) :
    FileBytes data (storeBytes mem addr src f) := by
  intro i hi j hj
  rw [byteOf_storeBytes hi hj]
  split
  · rename_i hin
    right
    have hlt : f * 4096 + i * 8 + j - addr < src.length := by omega
    refine ⟨src[f * 4096 + i * 8 + j - addr], hsrc (List.getElem_mem hlt), ?_⟩
    rw [List.getD_eq_getElem?_getD, List.getElem?_eq_getElem hlt, Option.getD_some]
  · exact h i hi j hj

/-- The two states differ in the contents of one frame only. -/
structure Filled (s s' : KMem) (f : Nat) : Prop where
  mem : ∀ g, g ≠ f → s'.mem g = s.mem g
  frames : s'.frames = s.frames
  cr3 : s'.cr3 = s.cr3
  debug : s'.debug = s.debug

theorem Filled.refl (s : KMem) (f : Nat) : Filled s s f := ⟨fun _ _ => rfl, rfl, rfl, rfl⟩

theorem Filled.trans (h : Filled s s1 f) (h' : Filled s1 s' f) : Filled s s' f :=
  ⟨fun g hg => (h'.mem g hg).trans (h.mem g hg), h'.frames.trans h.frames,
    h'.cr3.trans h.cr3, h'.debug.trans h.debug⟩

theorem filled_zeroFrame (s : KMem) (f : Nat) : Filled s (s.zeroFrame f) f :=
  ⟨fun g hg => by simp [KMem.zeroFrame, hg], rfl, rfl, rfl⟩

/-! ## One page -/

/-- A page was added to an address space: a fresh frame, mapped at page `v`. -/
structure NewPage (roots K : Set Nat) (pt v f : Nat) (flags : Word) (s s' : KMem) : Prop where
  wf : Wf s' roots K
  cr3 : s'.cr3 = s.cr3
  fresh : Fresh s.frames f
  frames : FramesLe s.frames s'.frames
  kept : ∀ g, g ≠ f → ¬IsTable s' roots g → s'.mem g = s.mem g
  upper : ∀ r ∈ roots, ∀ i, 256 ≤ i → s'.mem r i = s.mem r i
  new_table : ∀ g, IsTable s' roots g → IsTable s roots g ∨ Fresh s.frames g
  leaf : ∀ r ∈ roots, ∀ w < userPages, leafOf s' r w =
    if r = pt ∧ w = v then some (Pte.make (frameAddr f) flags) else leafOf s r w
  free : leafOf s pt v = none

/-- What was in use keeps its contents. -/
theorem NewPage.content {v : Nat} {flags : Word} (n : NewPage roots K pt v f flags s s')
    (hf : ¬Fresh s.frames g) (ht : ¬IsTable s roots g) : s'.mem g = s.mem g := by
  refine n.kept g (fun heq => hf (heq ▸ n.fresh)) fun ht' => ?_
  rcases n.new_table g ht' with h | h
  · exact ht h
  · exact hf h

section

variable {pt v f : Nat} {flags : Word} (n : NewPage roots K pt v f flags s s') (hr : pt ∈ roots)
include n hr

/-- The new page is mapped. -/
theorem NewPage.here (hv : v < userPages) : leafOf s' pt v ≠ none := by
  rw [n.leaf pt hr v hv, if_pos ⟨rfl, rfl⟩]
  simp

/-- No page has gone. -/
theorem NewPage.mapped {w : Nat} (hw : w < userPages) (h : leafOf s pt w ≠ none) :
    leafOf s' pt w ≠ none := by
  rw [n.leaf pt hr w hw]
  split
  · simp
  · exact h

end

/-- Allocating, mapping and filling a frame adds a page. -/
theorem newPage_ok {flags : Word} {u : Unit} (h : Wf s roots K)
    (hr : pt ∈ roots) (hva : va < 2 ^ 47) (hfl : PageFlags flags) (ha : Allocated s s1 f)
    (hmap : Returns (mapPage pt va f flags) s1 u s2) (hfill : Filled s2 s' f) :
    NewPage roots K pt (va / 4096) f flags s s' := by
  obtain ⟨hnt, hu, hk⟩ := h.fresh ha.fresh
  have hsame := ha.agree roots
  have hw1 : Wf s1 roots K := h.of_agree hsame ha.frames
  have hnt1 : ¬IsTable s1 roots f := by rwa [isTable_iff_of_agree hsame]
  obtain ⟨hw2, hg, -, hl, hold⟩ := mapPage_ok hw1 hr hva ha.owned hnt1 hk hfl hmap
  have hnt2 : ¬IsTable s2 roots f := hg.not_isTable ha.owned.not_fresh hnt1
  -- filling the page touches no table, since its frame is none
  have hfilled : pml4.Agree s2.mem s'.mem roots userRegion 3 := by
    apply pml4.agree_of_frames
    intro t ht
    refine hfill.mem t ?_
    rintro rfl
    exact hnt2 ht
  have htab : ∀ g, IsTable s' roots g ↔ IsTable s2 roots g := isTable_iff_of_agree hfilled
  have hnf : ∀ r ∈ roots, r ≠ f := by
    rintro r hr rfl
    exact hnt (isTable_root hr)
  constructor
  case wf => exact hw2.of_agree hfilled (hfill.frames ▸ .refl _)
  case cr3 => rw [hfill.cr3, hg.cr3, ha.cr3]
  case fresh => exact ha.fresh
  case frames => exact ha.frames.trans (hfill.frames ▸ hg.frames)
  case kept =>
    intro g hgf hgt
    rw [hfill.mem g hgf, hg.kept g (by rwa [← htab]), ha.mem]
  case upper =>
    intro r hr i hi
    rw [hfill.mem r (hnf r hr), hg.upper r hr i hi, ha.mem]
  case new_table =>
    intro g hgt
    rcases hg.tables g ((htab g).mp hgt) with h' | h'
    · exact .inl ((isTable_iff_of_agree hsame g).mp h')
    · exact .inr (ha.frames.fresh h')
  case leaf =>
    intro r hr w hw
    rw [leafOf_agree hfilled hr hw, hl r hr w hw, leafOf_agree hsame hr hw]
  -- a page that was mapped before would keep its frame, which was free
  case free =>
    cases he : leafOf s pt (va / 4096) with
    | none => rfl
    | some e =>
      have he1 : leafOf s1 pt (va / 4096) = some e := by
        rw [leafOf_agree hsame hr (page_lt hva), he]
      exact absurd (hold e he1) (hu pt hr _ (page_lt hva) e he)

/-! ## Arithmetic -/

/-- The kernel stopped. -/
def Stopped (e : Fault) : Prop := ∃ msg, e = .panic msg

/-- An addition changes nothing. It stops only a build that checks, for a sum that
does not fit. -/
theorem addU64_ends (a b : Nat) (s : KMem) : Ends (addU64 a b) s
      (fun c s' => s' = s ∧ c ≤ a + b ∧ (a + b < 2 ^ 64 → c = a + b) ∧
        (s.debug = true → a + b < 2 ^ 64))
      fun e s' => s' = s ∧ Stopped e ∧ s.debug = true ∧ 2 ^ 64 ≤ a + b := by
  unfold addU64
  split
  · exact ⟨rfl, le_rfl, fun _ => rfl, fun _ => ‹_›⟩
  · rename_i hover
    simp only [ends_bind, ends_get]
    split
    · exact ⟨rfl, ⟨_, rfl⟩, ‹_›, by omega⟩
    · exact ⟨rfl, Nat.mod_le _ _, fun hlt => absurd hlt hover, fun hdebug => absurd hdebug ‹_›⟩

theorem subU64_ends (a b : Nat) (s : KMem) :
    Ends (subU64 a b) s (fun c s' => s' = s ∧ (b ≤ a → c = a - b))
      fun e s' => s' = s ∧ Stopped e ∧ a < b := by
  unfold subU64
  split
  · exact ⟨rfl, fun _ => rfl⟩
  · rename_i hover
    simp only [ends_bind, ends_get]
    split
    · exact ⟨rfl, ⟨_, rfl⟩, by omega⟩
    · exact ⟨rfl, fun hle => absurd hle hover⟩

/-- An addition that fits. -/
theorem addU64_eq (h : a + b < 2 ^ 64) : addU64 a b = (pure (a + b) : KM Nat) := by
  unfold addU64
  rw [if_pos h]

theorem subU64_eq (h : b ≤ a) : subU64 a b = (pure (a - b) : KM Nat) := by
  unfold subU64
  rw [if_pos h]

/-- The code leaves the state as it is. -/
abbrev Reads {α : Type} (x : KM α) : Prop := MovesAlong (fun s s' => s' = s) x

instance : Std.Refl fun s s' : KMem => s' = s := ⟨fun _ => rfl⟩

instance : IsTrans KMem fun s s' => s' = s := ⟨fun _ _ _ h h' => h'.trans h⟩

theorem reads_addU64 (a b : Nat) : Reads (addU64 a b) := fun s =>
  (addU64_ends a b s).mono (fun _ _ h => h.1) fun _ _ h => h.1

theorem reads_subU64 (a b : Nat) : Reads (subU64 a b) := fun s =>
  (subU64_ends a b s).mono (fun _ _ h => h.1) fun _ _ h => h.1

/-- A program that only reads is left where it was entered. -/
theorem Reads.ends {α : Type} {x : KM α} {Q : α → KMem → Prop} {E : Fault → KMem → Prop}
    (h : Reads x) (hQ : ∀ a, Q a s) (hE : ∀ e, E e s) : Ends x s Q E :=
  (h s).mono (fun a _ hs => hs ▸ hQ a) fun e _ hs => hs ▸ hE e

theorem reads_calculateHeapStart (info : ElfInfo) : Reads (calculateHeapStart info) := by
  have hfold : ∀ (segs : List LoadSegment) (acc : Nat), Reads (segs.foldlM (fun acc seg => do
      let segEnd ← addU64 seg.vaddr seg.memSize
      return max acc segEnd) acc) := by
    intro segs
    induction segs with
    | nil => exact fun acc => .pure acc
    | cons seg segs ih =>
      intro acc
      rw [List.foldlM_cons]
      exact ((reads_addU64 _ _).bind fun _ => .pure _).bind ih
  exact (hfold _ 0).bind fun _ => (reads_addU64 _ _).bind fun _ => .pure _

theorem reads_heapInfo (start : Nat) : Reads (HeapInfo.new start) :=
  (reads_addU64 _ _).bind fun _ => (reads_addU64 _ _).bind fun _ => .pure _

/-! ## Properties that new pages keep -/

/-- What a new page may be: its number, its flags, and the contents of its frame
before and after. -/
abbrev PageRule := Nat → Word → (Nat → Word) → (Nat → Word) → Prop

/-- A property of well-formed states that every new page of `pt` that `A` admits
keeps. -/
structure PageInv (roots K : Set Nat) (pt : Nat) (A : PageRule) (J : KMem → Prop) : Prop where
  wf : ∀ s, J s → Wf s roots K
  step : ∀ s s' v f fl, v < userPages → J s → A v fl (s.mem f) (s'.mem f) →
    NewPage roots K pt v f fl s s' → J s'

/-! ## Loading a segment -/

theorem pageFlags_segment (seg : LoadSegment) : PageFlags (segmentFlags seg) := by
  unfold segmentFlags PageFlags
  cases seg.isWritable <;> cases seg.isExecutable <;> decide

/-- What `parse_elf` checks about a segment. -/
def LoadSegment.InFile (seg : LoadSegment) (data : List Byte) : Prop :=
  seg.fileSize ≤ seg.memSize ∧ seg.fileOffset + seg.fileSize < 2 ^ 64 ∧
    seg.fileOffset + seg.fileSize ≤ data.length

theorem ite_ge_sub (a b : Nat) : (if a ≥ b then a - b else 0) = a - b := by
  split <;> omega

theorem ite_gt_sub (a b : Nat) : (if a > b then a - b else 0) = a - b := by
  split <;> omega

/-- Copying a part of the file stays inside the page's frame. It stops before the
first store, and not for a segment of an accepted file. -/
theorem copySegmentPage_ends {seg : LoadSegment} (hf : f < 2 ^ 40) (hva : seg.vaddr < va + 4096) :
    Ends (copySegmentPage seg data f va) s
      (fun _ s' => Filled s s' f ∧ (FileBytes data (s.mem f) → FileBytes data (s'.mem f)))
      fun e s' => s' = s ∧ Stopped e ∧ (va < seg.vaddr + seg.fileSize → ¬seg.InFile data) := by
  simp only [copySegmentPage, ite_ge_sub, ite_gt_sub, ends_bind]
  refine (addU64_ends _ _ s).mono ?_ fun _ _ hfail => ⟨hfail.1, hfail.2.1, fun hin hfile => ?_⟩
  · rintro fileOffset _ ⟨rfl, -, hoff, -⟩
    refine (subU64_ends _ _ _).mono ?_ fun _ _ hfail =>
      ⟨hfail.1, hfail.2.1, fun hin => absurd hfail.2.2 (by omega)⟩
    rintro room _ ⟨rfl, hroom⟩
    refine (subU64_ends _ _ _).mono ?_ fun _ _ hfail =>
      ⟨hfail.1, hfail.2.1, fun hin => absurd hfail.2.2 (by omega)⟩
    rintro left s ⟨rfl, hleft⟩
    have hroom := hroom (by omega)
    split
    · split
      · refine ⟨rfl, ⟨_, rfl⟩, fun hin hfile => ?_⟩
        obtain ⟨-, hwrap, hlen⟩ := hfile
        have hoff := hoff (by omega)
        have hleft := hleft (by omega)
        omega
      · have hsrc : (data.drop fileOffset).take (min room left) ⊆ data := fun b hb =>
          List.mem_of_mem_drop (List.mem_of_mem_take hb)
        refine ⟨⟨fun g hg => ?_, rfl, rfl, rfl⟩, fun hc => hc.store _ hsrc⟩
        have hlen := List.length_take_le (min room left) (data.drop fileOffset)
        exact storeBytes_other (by omega) (by omega) hg
    · exact ⟨Filled.refl _ _, id⟩
  · obtain ⟨-, hwrap, -⟩ := hfile
    have hover := hfail.2.2.2
    omega

end PandaOS.Kernel
