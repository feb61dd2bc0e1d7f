import Mathlib.Data.List.Count

/-!
# A saturating counter

A counter that goes up with `true` and down with `false`, that stays at its
greatest value instead of passing it, and that is dead once it has reached 0.
An increment at the greatest value is forgotten, so the counter can reach 0 while
more was taken than was given back. It stays alive exactly if no stretch of the
history goes down by the whole range of the counter (`alive_iff`).
-/

namespace PandaOS.Lib

variable {x : Nat} {l : List Bool}

/-- The counter after one step. -/
def satStep (top x : Nat) (up : Bool) : Nat :=
  if x = 0 then 0 else if up then min (x + 1) top else x - 1

/-- The counter after a history. -/
def satRun (top : Nat) : Nat → List Bool → Nat := List.foldl (satStep top)

theorem satRun_zero (top : Nat) (l : List Bool) : satRun top 0 l = 0 := by
  induction l with
  | nil => rfl
  | cons b l ih => simpa [satRun, satStep] using ih

theorem satRun_cons (top x : Nat) (b : Bool) (l : List Bool) :
    satRun top x (b :: l) = satRun top (satStep top x b) l := rfl

/-- No prefix of the history goes down by `x` or more. -/
def Shallow (x : Nat) (l : List Bool) : Prop :=
  ∀ p, p <+: l → p.count false < p.count true + x

/-- No stretch of the history goes down by `top` or more. -/
def Steady (top : Nat) (l : List Bool) : Prop := ∀ r, r <:+ l → Shallow top r

theorem shallow_cons {b : Bool} : Shallow x (b :: l) ↔ 0 < x ∧
      ∀ p, p <+: l → (b :: p).count false < (b :: p).count true + x := by
  constructor
  · intro h
    refine ⟨by simpa using h [] (List.nil_prefix), fun p hp => h (b :: p) ?_⟩
    exact (List.cons_prefix_cons).mpr ⟨rfl, hp⟩
  · rintro ⟨hx, h⟩ p hp
    cases p with
    | nil => simpa using hx
    | cons c p =>
      obtain ⟨rfl, htail⟩ := List.cons_prefix_cons.mp hp
      exact h p htail

theorem steady_cons {top : Nat} {b : Bool} : Steady top (b :: l) ↔
    Shallow top (b :: l) ∧ Steady top l := by
  unfold Steady
  simp only [List.suffix_cons_iff, forall_eq_or_imp]

theorem shallow_true_cons (hx : 0 < x) : Shallow x (true :: l) ↔ Shallow (x + 1) l := by
  rw [shallow_cons]
  simp only [hx, true_and, List.count_cons_self,
    List.count_cons_of_ne (show true ≠ false by decide)]
  exact forall₂_congr fun p _ => by omega

theorem shallow_false_cons (hx : 1 < x) : Shallow x (false :: l) ↔ Shallow (x - 1) l := by
  rw [shallow_cons]
  simp only [List.count_cons_self, List.count_cons_of_ne (show false ≠ true by decide)]
  constructor
  · rintro ⟨-, h⟩ p hp
    have := h p hp
    omega
  · intro h
    refine ⟨by omega, fun p hp => ?_⟩
    have := h p hp
    omega

theorem Shallow.mono {y : Nat} (h : Shallow x l) (hle : x ≤ y) : Shallow y l :=
  fun p hp => Nat.lt_of_lt_of_le (h p hp) (by omega)

/-- The counter is alive exactly if it was not used up and no stretch of the history
goes down by its whole range. -/
theorem alive_iff {top : Nat} (hx : 0 < x) (hle : x ≤ top) :
    0 < satRun top x l ↔ Shallow x l ∧ Steady top l := by
  -- by induction on the history; the counter after the first step starts the rest
  induction l generalizing x with
  | nil =>
    refine iff_of_true hx ⟨fun p hp => ?_, fun r hr p hp => ?_⟩
    · rw [List.prefix_nil.mp hp]
      simpa using hx
    · rw [List.suffix_nil.mp hr] at hp
      rw [List.prefix_nil.mp hp]
      simp only [List.count_nil]
      omega
  | cons b l ih =>
    rw [satRun_cons, steady_cons]
    cases b with
    | true =>
      have hstep : satStep top x true = min (x + 1) top := by
        simp [satStep, Nat.ne_of_gt hx]
      rw [hstep, ih (by omega) (by omega), shallow_true_cons hx,
        shallow_true_cons (by omega : 0 < top)]
      constructor
      · rintro ⟨hsh, hl⟩
        exact ⟨hsh.mono (by omega), hsh.mono (by omega), hl⟩
      · rintro ⟨hsh, -, hl⟩
        refine ⟨fun p hp => ?_, hl⟩
        -- the bound on stretches covers the prefixes too, where the counter had saturated
        have := hsh p hp
        have := hl l List.suffix_rfl p hp
        omega
    | false =>
      by_cases hone : x = 1
      · subst hone
        have hdead : satStep top 1 false = 0 := rfl
        rw [hdead, satRun_zero]
        refine iff_of_false (by omega) fun h => ?_
        have := h.1 [false] (List.cons_prefix_cons.mpr ⟨rfl, List.nil_prefix⟩)
        simp at this
      · have hstep : satStep top x false = x - 1 := by
          simp [satStep, Nat.ne_of_gt hx]
        rw [hstep, ih (by omega) (by omega), shallow_false_cons (by omega : 1 < x),
          shallow_false_cons (by omega : 1 < top)]
        constructor
        · rintro ⟨hsh, hl⟩
          exact ⟨hsh, hsh.mono (by omega), hl⟩
        · rintro ⟨hsh, -, hl⟩
          exact ⟨hsh, hl⟩

end PandaOS.Lib
