import PandaOS.Logic.Refcount
import PandaOS.Logic.KernelStack

/-!
# The ledger of frames

`Ledger` adds to the balance of references that every frame handed out has a
use: it is the kernel's, a table of a space, or a page with references. Where a
step takes a frame or gives one up, it has to say for what.
-/

namespace PandaOS.Kernel

open Hal Lib

variable {s s' : KMem} {ps : List Nat} {K K' : Set Nat} {hand : Option Nat} {f c : Nat}

/-- The balance of references, and every frame handed out has a use: it is the
kernel's, a table, or a page with a reference. -/
structure Ledger (s : KMem) (ps : List Nat) (K : Set Nat) (hand : Option Nat) : Prop
    extends Counted s ps K hand where
  used : ∀ f, Owned s.frames f → f ∈ K ∨ IsTable s (spaces ps) f ∨ 0 < rcOf s.frames f

/-- One frame loses references; it is freed with the last of them. -/
theorem Ledger.of_recounted {ps' : List Nat} {hand' : Option Nat} {n : Nat}
    (h : Ledger s ps K hand) (hc : Counted s' ps' K hand') (hre : Recounted s.frames s'.frames f n)
    (hfree : n = 0 → s'.frames.allocated f = false)
    (htab : ∀ g, g ≠ f → IsTable s (spaces ps) g → IsTable s' (spaces ps') g) :
    Ledger s' ps' K hand' where
  toCounted := hc
  used g hg := by
    by_cases hgf : g = f
    · right; right
      rw [hre.rc, if_pos hgf, Nat.pos_iff_ne_zero]
      intro hz
      have hal := hg.2.2.2
      rw [hgf, hfree hz] at hal
      cases hal
    · rw [hre.rc, if_neg hgf]
      rcases h.used g (hre.released.owned hgf hg) with hk | ht | hrc
      · exact .inl hk
      · exact .inr (.inl (htab g hgf ht))
      · exact .inr (.inr hrc)

/-! ## New spaces -/

theorem Counted.newSpace (h : Counted s ps K none) (n : NewSpace s s' c) :
    Counted s' (c :: ps) K none := by
  have ha := n.agree h.wf
  constructor
  case nodup =>
    exact List.nodup_cons.mpr ⟨fun hm => (h.wf.fresh n.fresh).1 (isTable_root hm), h.nodup⟩
  case wf =>
    rw [spaces_cons]
    exact n.wf h.wf
  case storage => rw [n.frames.counted]; exact h.storage
  case hand_user => rintro g ⟨⟩
  case rc =>
    intro g hgo hgk hgt
    rw [spaces_cons, isTable_insert_iff n.empty, isTable_iff_of_agree ha, not_or] at hgt
    rw [n.rc g hgt.2, h.rc g (n.frames.owned_of hgo (n.others g hgt.2)) hgk hgt.1]
    unfold mappings
    rw [tally_cons, count_empty n.empty, Nat.zero_add]
    have := mappings_congr (fun r hr v hv => leafOf_agree ha hr hv) g
    unfold mappings at this
    rw [this]

theorem Ledger.newSpace (h : Ledger s ps K none) (n : NewSpace s s' c) :
    Ledger s' (c :: ps) K none := by
  refine ⟨h.toCounted.newSpace n, fun g hg => ?_⟩
  rw [spaces_cons, isTable_insert_iff n.empty, isTable_iff_of_agree (n.agree h.wf)]
  by_cases hgc : g = c
  · exact .inr (.inl (.inr hgc))
  · rcases h.used g (n.frames.owned_of hg (n.others g hgc)) with hk | ht | hrc
    · exact .inl hk
    · exact .inr (.inl (.inl ht))
    · exact .inr (.inr (by rwa [n.rc g hgc]))

/-! ## The kernel's frames -/

theorem Counted.kernelGrows (h : Counted s ps K none)
    (g : KernelGrows (spaces ps) K K' s s') : Counted s' ps K' none := by
  constructor
  case nodup => exact h.nodup
  case wf => exact g.wf
  case storage => rw [g.frames.counted]; exact h.storage
  case hand_user => rintro f ⟨⟩
  case rc =>
    intro f hfo hfk hft
    rw [isTable_iff_of_agree g.agree] at hft
    rw [g.rc f hfk, h.rc f (g.frames.owned_of hfo (g.others f hfk)) (fun hk => hfk (g.sub hk)) hft,
      mappings_congr fun r hr v hv => leafOf_agree g.agree hr hv]

/-- What the kernel takes is used by it. -/
theorem Ledger.kernelGrows (h : Ledger s ps K none)
    (g : KernelGrows (spaces ps) K K' s s') : Ledger s' ps K' none := by
  refine ⟨h.toCounted.kernelGrows g, fun f hf => ?_⟩
  by_cases hfk : f ∈ K'
  · exact .inl hfk
  · rcases h.used f (g.frames.owned_of hf (g.others f hfk)) with hk | ht | hrc
    · exact absurd (g.sub hk) hfk
    · exact .inr (.inl ((isTable_iff_of_agree g.agree f).mpr ht))
    · exact .inr (.inr (by rwa [g.rc f hfk]))

/-- A frame of the kernel with one reference is taken into the hand. -/
theorem Counted.take (h : Counted s ps K none) (hk : f ∈ K) (ho : Owned s.frames f)
    (hrc : rcOf s.frames f = 1) : Counted s ps (K \ {f}) (some f) := by
  have hu : Unmapped s (spaces ps) f := fun r hr v hv e he hfe =>
    (h.wf.leaf_apart r hr v hv e he).2 (hfe ▸ hk)
  constructor
  case nodup => exact h.nodup
  case wf => exact h.wf.dropKernel Set.sdiff_subset
  case storage => exact h.storage
  case hand_user =>
    rintro g ⟨⟩
    exact ⟨ho, h.wf.kernel_apart f hk, fun hm => hm.2 rfl⟩
  case rc =>
    intro g hgo hgk hgt
    by_cases hgf : g = f
    · subst hgf
      rw [hrc, mappings_eq_zero.mpr hu, held_self]
    · rw [h.rc g hgo (fun hm => hgk ⟨hm, hgf⟩) hgt, held_ne hgf, held_none]

theorem Ledger.take (h : Ledger s ps K none) (hk : f ∈ K) (ho : Owned s.frames f)
    (hrc : rcOf s.frames f = 1) : Ledger s ps (K \ {f}) (some f) := by
  refine ⟨h.toCounted.take hk ho hrc, fun g hg => ?_⟩
  by_cases hgf : g = f
  · subst hgf
    exact .inr (.inr (by omega))
  · rcases h.used g hg with hm | hrest
    · exact .inl ⟨hm, hgf⟩
    · exact .inr hrest

/-! ## Mapping a page -/

section

variable {pt va : Nat} {flags : Word} (hr : pt ∈ ps) (hva : va < 2 ^ 47) (hfl : PageFlags flags)
  (hret : Returns (mapPage pt va f flags) s () s')
include hr hva hfl hret

/-- `map_page` puts the frame in hand into a page that was free. -/
theorem Counted.mapPage (h : Counted s ps K (some f)) (hu : Unmapped s (spaces ps) f) :
    Counted s' ps K none := by
  obtain ⟨ho, hnt, hk⟩ := h.hand_user f rfl
  obtain ⟨hw, hg, hc, hl, hold⟩ := mapPage_ok h.wf hr hva ho hnt hk hfl hret
  have hv := page_lt hva
  have hbound : f < 2 ^ 40 := by
    have := ho.2.1
    have := h.wf.bound
    omega
  have hfree : frameAt s pt (va / 4096) = none := by
    cases he : leafOf s pt (va / 4096) with
    | none => rw [frameAt, he]; rfl
    | some e => exact absurd (hold e he) (hu pt hr _ hv e he)
  have hpoint := tally_point h.nodup (frameAt s) (frameAt s') (o := some f) hr hv
    (fun r hm v hv' => by
      unfold frameAt
      rw [hl r hm v hv']
      split
      · rw [Option.map_some, Pte.frame_make hbound hfl.1]
      · rfl)
  constructor
  case nodup => exact h.nodup
  case wf => exact hw
  case storage => rw [hg.frames.counted]; exact h.storage
  case hand_user => rintro g ⟨⟩
  case rc =>
    intro g hgo hgk hgt
    have hgo0 := hg.frames.owned_of hgo (hg.others g hgt)
    rw [hc g hgt, h.rc g hgo0 hgk fun ht => hgt (hg.isTable ht)]
    have := hpoint g
    rw [hfree, held_none, Nat.add_zero] at this
    exact this.symm

theorem Ledger.mapPage (h : Ledger s ps K (some f)) (hu : Unmapped s (spaces ps) f) :
    Ledger s' ps K none := by
  obtain ⟨ho, hnt, hk⟩ := h.hand_user f rfl
  obtain ⟨-, hg, hc, -, -⟩ := mapPage_ok h.wf hr hva ho hnt hk hfl hret
  refine ⟨h.toCounted.mapPage hr hva hfl hret hu, fun g hgo => ?_⟩
  by_cases hgt : IsTable s' (spaces ps) g
  · exact .inr (.inl hgt)
  · rw [hc g hgt]
    rcases h.used g (hg.frames.owned_of hgo (hg.others g hgt)) with hm | ht | hrc
    · exact .inl hm
    · exact absurd (hg.isTable ht) hgt
    · exact .inr (.inr hrc)

end

end PandaOS.Kernel
