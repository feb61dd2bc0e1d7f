import Mathlib.Logic.Relation

/-!
# Trees of named links

Nodes with named links between them, as a partial function from a node and a
name to a node. `IsTree` says that the links form a tree below a root, and the
lemmas say that adding a leaf, removing a leaf and moving a node to a place that
is not below it keep it one.
-/

namespace PandaOS.Lib

open Relation

variable {ν κ : Type} {q x p : ν} {n : κ}

/-- `c` has a link from `d`. -/
def Child (link : ν → κ → Option ν) (d c : ν) : Prop := ∃ k, link d k = some c

/-- The links lead from nodes to nodes, no node has two links to it, every node
can be reached from the root, and there is no way from a node back to it. -/
structure IsTree (node : ν → Prop) (link : ν → κ → Option ν) (root : ν) : Prop where
  root_node : node root
  valid : ∀ d k c, link d k = some c → node d ∧ node c
  once : ∀ d k d' k' c, link d k = some c → link d' k' = some c → d = d' ∧ k = k'
  reach : ∀ c, node c → ReflTransGen (Child link) root c
  acyclic : ∀ c, ¬TransGen (Child link) c c

namespace IsTree

variable {node node' : ν → Prop} {link link' : ν → κ → Option ν} {root : ν}

section

variable (h : IsTree node link root)
include h

/-- A node other than the root has a link to it. -/
theorem linked {c : ν} (hc : node c) (hne : c ≠ root) : ∃ d k, link d k = some c := by
  rcases ReflTransGen.cases_tail (h.reach c hc) with heq | ⟨d, -, k, hk⟩
  · exact absurd heq hne
  · exact ⟨d, k, hk⟩

/-- The root has no link to it. -/
theorem root_unlinked (d : ν) (k : κ) : link d k ≠ some root := by
  intro hk
  have hd := h.reach d (h.valid d k root hk).1
  exact h.acyclic root (TransGen.tail' hd ⟨k, hk⟩)

/-- Reading the same links. -/
theorem congr (hnode : ∀ c, node' c ↔ node c) (hlink : ∀ d k, link' d k = link d k) :
    IsTree node' link' root := by
  obtain rfl : link' = link := by
    funext d k
    exact hlink d k
  exact ⟨(hnode _).mpr h.root_node,
    fun d k c hk => ⟨(hnode d).mpr (h.valid d k c hk).1, (hnode c).mpr (h.valid d k c hk).2⟩,
    h.once, fun c hc => h.reach c ((hnode c).mp hc), h.acyclic⟩

/-- One more link, not from below its own start, makes no way around. -/
theorem acyclic_link (hcases : ∀ d c, Child link' d c → (d = q ∧ c = x) ∨ Child link d c)
    (hbelow : ¬ReflTransGen (Child link) x q) (c : ν) : ¬TransGen (Child link') c c := by
  intro hc
  -- a new way around goes from the end of the link to its start
  have hway : ∀ a b, TransGen (Child link') a b → TransGen (Child link) a b ∨
      (ReflTransGen (Child link) a q ∧ ReflTransGen (Child link) x b) := by
    intro a b hab
    induction hab with
    | single hab =>
      rcases hcases _ _ hab with ⟨rfl, rfl⟩ | hab
      · exact .inr ⟨.refl, .refl⟩
      · exact .inl (.single hab)
    | @tail b c _ hbc ih =>
      rcases hcases _ _ hbc with ⟨rfl, rfl⟩ | hbc
      · rcases ih with hab | ⟨-, hxb⟩
        · exact .inr ⟨hab.to_reflTransGen, .refl⟩
        · exact absurd hxb hbelow
      · rcases ih with hab | ⟨haq, hxb⟩
        · exact .inl (hab.tail hbc)
        · exact .inr ⟨haq, hxb.tail hbc⟩
  rcases hway c c hc with hcc | ⟨hcq, hxc⟩
  · exact h.acyclic c hcc
  · exact hbelow (hxc.trans hcq)

/-- A new node without links is added. -/
theorem add (hp : node p) (hx : ¬node x) (hnode : ∀ c, node' c ↔ node c ∨ c = x)
    (hlink : ∀ d k c, link' d k = some c ↔ (d = p ∧ k = n ∧ c = x) ∨
      (¬(d = p ∧ k = n) ∧ link d k = some c)) (hfree : link p n = none) :
    IsTree node' link' root := by
  have hold : ∀ d c, Child link d c → Child link' d c := by
    rintro d c ⟨k, hk⟩
    refine ⟨k, (hlink d k c).mpr (.inr ⟨?_, hk⟩)⟩
    rintro ⟨rfl, rfl⟩
    rw [hfree] at hk
    cases hk
  have hcases : ∀ d c, Child link' d c → (d = p ∧ c = x) ∨ Child link d c := by
    rintro d c ⟨k, hk⟩
    rcases (hlink d k c).mp hk with ⟨rfl, -, rfl⟩ | ⟨-, hk⟩
    · exact .inl ⟨rfl, rfl⟩
    · exact .inr ⟨k, hk⟩
  -- nothing leads out of the new node
  have hleaf : ¬ReflTransGen (Child link) x p := by
    intro hxp
    rcases ReflTransGen.cases_head hxp with rfl | ⟨c, ⟨k, hk⟩, -⟩
    · exact hx hp
    · exact hx (h.valid x k c hk).1
  refine ⟨(hnode _).mpr (.inl h.root_node), ?_, ?_, ?_, h.acyclic_link hcases hleaf⟩
  · intro d k c hk
    rcases (hlink d k c).mp hk with ⟨rfl, -, rfl⟩ | ⟨-, hk⟩
    · exact ⟨(hnode _).mpr (.inl hp), (hnode _).mpr (.inr rfl)⟩
    · exact ⟨(hnode _).mpr (.inl (h.valid d k c hk).1), (hnode _).mpr (.inl (h.valid d k c hk).2)⟩
  · intro d k d' k' c hk hk'
    rcases (hlink d k c).mp hk with ⟨rfl, rfl, rfl⟩ | ⟨-, hk⟩ <;>
      rcases (hlink d' k' _).mp hk' with ⟨rfl, rfl, hcx⟩ | ⟨-, hk'⟩
    · exact ⟨rfl, rfl⟩
    · exact absurd (h.valid _ _ _ hk').2 hx
    · exact absurd (hcx ▸ (h.valid _ _ _ hk).2) hx
    · exact h.once d k d' k' c hk hk'
  · intro c hc
    have hlift : ∀ c, node c → ReflTransGen (Child link') root c := fun c hc =>
      ReflTransGen.mono hold _ _ (h.reach c hc)
    rcases (hnode c).mp hc with hc | rfl
    · exact hlift c hc
    · exact (hlift p hp).tail ⟨n, (hlink p n c).mpr (.inl ⟨rfl, rfl, rfl⟩)⟩

/-- A node without links is removed. -/
theorem remove (hentry : link p n = some x)
    (hleaf : ∀ k, link x k = none) (hnode : ∀ c, node' c ↔ node c ∧ c ≠ x)
    (hlink : ∀ d k c, link' d k = some c ↔ ¬(d = p ∧ k = n) ∧ link d k = some c) :
    IsTree node' link' root := by
  have hold : ∀ d c, Child link' d c → Child link d c := by
    rintro d c ⟨k, hk⟩
    exact ⟨k, ((hlink d k c).mp hk).2⟩
  have hroot : root ≠ x := fun heq => h.root_unlinked p n (heq ▸ hentry)
  refine ⟨(hnode _).mpr ⟨h.root_node, hroot⟩, ?_, ?_, ?_, ?_⟩
  · intro d k c hk
    obtain ⟨hne, hk⟩ := (hlink d k c).mp hk
    refine ⟨(hnode d).mpr ⟨(h.valid d k c hk).1, ?_⟩, (hnode c).mpr ⟨(h.valid d k c hk).2, ?_⟩⟩
    · rintro rfl
      rw [hleaf k] at hk
      cases hk
    · rintro rfl
      exact hne (h.once d k p n c hk hentry)
  · intro d k d' k' c hk hk'
    exact h.once d k d' k' c ((hlink d k c).mp hk).2 ((hlink d' k' c).mp hk').2
  · intro c hc
    obtain ⟨hc, hcx⟩ := (hnode c).mp hc
    -- a path to another node does not pass the leaf
    have hpath : ∀ c, ReflTransGen (Child link) root c → c ≠ x →
        ReflTransGen (Child link') root c := by
      intro c hpath
      induction hpath with
      | refl => exact fun _ => .refl
      | @tail b c _ hbc ih =>
        intro hcx
        obtain ⟨k, hk⟩ := hbc
        have hbx : b ≠ x := by
          rintro rfl
          rw [hleaf k] at hk
          cases hk
        refine (ih hbx).tail ⟨k, (hlink b k c).mpr ⟨?_, hk⟩⟩
        rintro ⟨rfl, rfl⟩
        rw [hentry] at hk
        exact hcx (Option.some.inj hk).symm
    exact hpath c (h.reach c hc) hcx
  · exact fun c hc => h.acyclic c (TransGen.mono hold _ _ hc)

/-- A node is moved to a node that is not below it. -/
theorem move {m : κ} (hentry : link p n = some x)
    (hq : node q) (hfree : link q m = none) (hbelow : ¬ReflTransGen (Child link) x q)
    (hnode : ∀ c, node' c ↔ node c)
    (hlink : ∀ d k c, link' d k = some c ↔ (d = q ∧ k = m ∧ c = x) ∨
      (¬(d = q ∧ k = m) ∧ ¬(d = p ∧ k = n) ∧ link d k = some c)) :
    IsTree node' link' root := by
  have hcases : ∀ d c, Child link' d c → (d = q ∧ c = x) ∨ Child link d c := by
    rintro d c ⟨k, hk⟩
    rcases (hlink d k c).mp hk with ⟨rfl, -, rfl⟩ | ⟨-, -, hk⟩
    · exact .inl ⟨rfl, rfl⟩
    · exact .inr ⟨k, hk⟩
  -- a link to anything but the moved node is still there
  have hold : ∀ d c, Child link d c → c ≠ x → Child link' d c := by
    rintro d c ⟨k, hk⟩ hcx
    refine ⟨k, (hlink d k c).mpr (.inr ⟨?_, ?_, hk⟩)⟩
    · rintro ⟨rfl, rfl⟩
      rw [hfree] at hk
      cases hk
    · rintro ⟨rfl, rfl⟩
      rw [hentry] at hk
      exact hcx (Option.some.inj hk).symm
  have hnew : Child link' q x := ⟨m, (hlink q m x).mpr (.inl ⟨rfl, rfl, rfl⟩)⟩
  refine ⟨(hnode _).mpr h.root_node, ?_, ?_, ?_, h.acyclic_link hcases hbelow⟩
  · intro d k c hk
    rcases (hlink d k c).mp hk with ⟨rfl, -, rfl⟩ | ⟨-, -, hk⟩
    · exact ⟨(hnode _).mpr hq, (hnode _).mpr (h.valid p n _ hentry).2⟩
    · exact ⟨(hnode d).mpr (h.valid d k c hk).1, (hnode c).mpr (h.valid d k c hk).2⟩
  · intro d k d' k' c hk hk'
    rcases (hlink d k c).mp hk with ⟨rfl, rfl, rfl⟩ | ⟨-, hne, hk⟩ <;>
      rcases (hlink d' k' _).mp hk' with ⟨rfl, rfl, hcx⟩ | ⟨-, hne', hk'⟩
    · exact ⟨rfl, rfl⟩
    · exact absurd (h.once _ _ _ _ _ hk' hentry) hne'
    · exact absurd (h.once _ _ _ _ _ hk (hcx ▸ hentry)) hne
    · exact h.once d k d' k' c hk hk'
  · intro c hc
    -- ways that do not pass the moved node stay, and those below it stay
    have habove : ∀ c, ReflTransGen (Child link) root c → ¬ReflTransGen (Child link) x c →
        ReflTransGen (Child link') root c := by
      intro c hpath
      induction hpath with
      | refl => exact fun _ => .refl
      | @tail b c _ hbc ih =>
        intro hxc
        have hcx : c ≠ x := fun heq => hxc (heq ▸ .refl)
        exact (ih fun hxb => hxc (hxb.tail hbc)).tail (hold b c hbc hcx)
    have hunder : ∀ c, ReflTransGen (Child link) x c → ReflTransGen (Child link') x c := by
      intro c hpath
      induction hpath with
      | refl => exact .refl
      | @tail b c hxb hbc ih =>
        refine ih.tail (hold b c hbc ?_)
        rintro rfl
        exact h.acyclic c (TransGen.tail' hxb hbc)
    by_cases hxc : ReflTransGen (Child link) x c
    · exact ((habove q (h.reach q hq) hbelow).tail hnew).trans (hunder c hxc)
    · exact habove c (h.reach c ((hnode c).mp hc)) hxc

end

end IsTree

end PandaOS.Lib
