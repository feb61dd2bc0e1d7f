import Mathlib.Algebra.GroupWithZero.Nat
import Mathlib.Order.Interval.Finset.Nat

/-!
# Intervals of numbers

The numbers that a list of half-open intervals covers, how many they are if the
intervals do not meet, and when two totals may be subtracted from a third to count
what neither set contains.
-/

namespace PandaOS.Lib

section

variable {α : Type} (lo hi : α → Nat)

/-- The numbers in some interval of the list. -/
def cover (l : List α) : Finset Nat := l.foldr (fun r S => Finset.Ico (lo r) (hi r) ∪ S) ∅

variable {lo hi}

theorem cover_cons (r : α) (l : List α) :
    cover lo hi (r :: l) = Finset.Ico (lo r) (hi r) ∪ cover lo hi l := rfl

theorem mem_cover {l : List α} {x : Nat} : x ∈ cover lo hi l ↔ ∃ r ∈ l, lo r ≤ x ∧ x < hi r := by
  induction l with
  | nil => simp [cover]
  | cons r l ih => simp [cover_cons, ih]

/-- Intervals that do not meet cover as many numbers as their lengths add up to. -/
theorem card_cover {l : List α} (h : l.Pairwise fun r o => hi r ≤ lo o ∨ hi o ≤ lo r) :
    (cover lo hi l).card = (l.map fun r => hi r - lo r).sum := by
  induction l with
  | nil => rfl
  | cons r l ih =>
    rw [List.pairwise_cons] at h
    have hdisj : Disjoint (Finset.Ico (lo r) (hi r)) (cover lo hi l) := by
      rw [Finset.disjoint_left]
      intro x hx hmem
      obtain ⟨o, ho, hlo, hhi⟩ := mem_cover.mp hmem
      have hr := Finset.mem_Ico.mp hx
      rcases h.1 o ho with hsep | hsep
      · omega
      · omega
    rw [cover_cons, Finset.card_union_of_disjoint hdisj, ih h.2,
      Nat.card_Ico, List.map_cons, List.sum_cons]

end

/-- Counting by the distance from the start of an interval. -/
theorem countP_range_eq_card (p : Nat → Bool) (s n : Nat) :
    (List.range n).countP (fun i => p (s + i)) =
      ((Finset.Ico s (s + n)).filter fun f => p f = true).card := by
  induction n with
  | zero => simp
  | succ n ih =>
    have hsucc : Finset.Ico s (s + (n + 1)) = insert (s + n) (Finset.Ico s (s + n)) := by
      ext x
      simp only [Finset.mem_Ico, Finset.mem_insert]
      omega
    rw [List.range_succ, List.countP_append, ih, hsucc, Finset.filter_insert]
    by_cases hp : p (s + n) = true
    · rw [if_pos hp, Finset.card_insert_of_notMem (by simp)]
      simp [hp]
    · rw [if_neg hp]
      simp [hp]

/-- Subtracting the sizes of `R` and `A` from that of `I` counts what is left of `I`
exactly if `R` lies in `I` and does not meet `A`, or if nothing is left. -/
theorem card_left_iff {α : Type} [DecidableEq α] {I R A : Finset α} (hA : A ⊆ I) :
    I.card - R.card - A.card = (I \ (R ∪ A)).card ↔ (R ⊆ I ∧ Disjoint R A) ∨ I ⊆ R ∪ A := by
  have hleft : (I \ (R ∪ A)).card + (R ∩ I ∪ A).card = I.card := by
    have hin : R ∩ I ∪ A ⊆ I := Finset.union_subset Finset.inter_subset_right hA
    have hsame : I \ (R ∪ A) = I \ (R ∩ I ∪ A) := by
      ext x
      simp only [Finset.mem_sdiff, Finset.mem_union, Finset.mem_inter]
      tauto
    rw [hsame, Finset.card_sdiff_add_card_eq_card hin]
  have hinter : (R ∩ I).card ≤ R.card := Finset.card_le_card Finset.inter_subset_left
  have hunion : (R ∩ I ∪ A).card + ((R ∩ I) ∩ A).card = (R ∩ I).card + A.card :=
    Finset.card_union_add_card_inter _ _
  constructor
  · intro heq
    by_cases hnone : (I \ (R ∪ A)).card = 0
    · right
      rwa [Finset.card_eq_zero, Finset.sdiff_eq_empty_iff_subset] at hnone
    · left
      -- both sides are positive, so nothing was cut off: the totals agree
      have hR : (R ∩ I).card = R.card := by omega
      have hmeet : ((R ∩ I) ∩ A).card = 0 := by omega
      have hsub : R ∩ I = R := Finset.eq_of_subset_of_card_le Finset.inter_subset_left hR.ge
      rw [hsub, Finset.card_eq_zero, ← Finset.disjoint_iff_inter_eq_empty] at hmeet
      exact ⟨Finset.inter_eq_left.mp hsub, hmeet⟩
  · rintro (⟨hsub, hdisj⟩ | hall)
    · rw [Finset.inter_eq_left.mpr hsub, Finset.card_union_of_disjoint hdisj] at hleft
      omega
    · have hnone : (I \ (R ∪ A)).card = 0 := by
        rw [Finset.card_eq_zero, Finset.sdiff_eq_empty_iff_subset]
        exact hall
      omega

end PandaOS.Lib
