import Mathlib.Algebra.GroupWithZero.Nat
import Mathlib.Data.Nat.Count

/-!
# Counting references

Several tables with `n` slots each, where a slot is empty or holds a value.
`tally` counts the slots that hold a given value; storing to one slot moves the
count of the old value down and that of the new one up.
-/

namespace PandaOS.Lib

/-- 1 for the value held, 0 for any other. -/
def held {β : Type} [DecidableEq β] (o : Option β) (b : β) : Nat := if o = some b then 1 else 0

section

variable {β : Type} [DecidableEq β]

@[simp] theorem held_none (b : β) : held none b = 0 := rfl

@[simp] theorem held_self (b : β) : held (some b) b = 1 := by simp [held]

theorem held_ne {a b : β} (h : b ≠ a) : held (some a) b = 0 := by
  simp [held, Ne.symm h]

end

variable {α β : Type} [DecidableEq β] {ps : List α} {n v : Nat} {g : α → Nat → Option β}
  {p q : Nat → Prop} {b : β} {r : α}

/-- The slots over all tables of `ps` that hold `b`. -/
def tally (ps : List α) (n : Nat) (g : α → Nat → Option β) (b : β) : Nat :=
  (ps.map fun r => Nat.count (fun v => g r v = some b) n).sum

@[simp] theorem tally_nil (n : Nat) (g : α → Nat → Option β) (b : β) : tally [] n g b = 0 := rfl

@[simp] theorem tally_cons (r : α) (ps : List α) (n : Nat) (g : α → Nat → Option β) (b : β) :
    tally (r :: ps) n g b = Nat.count (fun v => g r v = some b) n + tally ps n g b := by
  simp [tally]

theorem count_congr [DecidablePred p] [DecidablePred q]
    (h : ∀ v < n, p v ↔ q v) : Nat.count p n = Nat.count q n := by
  induction n with
  | zero => simp
  | succ n ih =>
    rw [Nat.count_succ, Nat.count_succ, ih fun v hv => h v (by omega)]
    simp [h n (by omega)]

/-- A predicate that changes at one number. -/
theorem count_point [DecidablePred p] [DecidablePred q] (hv : v < n)
    (h : ∀ w < n, w ≠ v → (p w ↔ q w)) :
    Nat.count q n + (if p v then 1 else 0) = Nat.count p n + (if q v then 1 else 0) := by
  induction n with
  | zero => omega
  | succ n ih =>
    rw [Nat.count_succ, Nat.count_succ]
    by_cases hn : v = n
    · subst hn
      rw [count_congr fun w hw => (h w (by omega) (by omega)).symm]
      omega
    · have := ih (by omega) fun w hw hne => h w (by omega) hne
      simp only [h n (by omega) (Ne.symm hn)]
      omega

theorem tally_congr {g' : α → Nat → Option β} (h : ∀ r ∈ ps, ∀ v < n, g' r v = some b ↔
    g r v = some b) : tally ps n g' b = tally ps n g b := by
  induction ps with
  | nil => rfl
  | cons r ps ih =>
    rw [tally_cons, tally_cons, count_congr (h r List.mem_cons_self),
      ih fun r' hr => h r' (List.mem_cons_of_mem _ hr)]

/-- Storing `o` to one slot. -/
theorem tally_point [DecidableEq α] (hnd : ps.Nodup) (g g' : α → Nat → Option β)
    {o : Option β} (hr : r ∈ ps) (hv : v < n)
    (h : ∀ r' ∈ ps, ∀ w < n, g' r' w = if r' = r ∧ w = v then o else g r' w) (b : β) :
    tally ps n g' b + held (g r v) b = tally ps n g b + held o b := by
  have hat : g' r v = o := by rw [h r hr v hv, if_pos ⟨rfl, rfl⟩]
  induction ps with
  | nil => cases hr
  | cons r0 ps ih =>
    rw [List.nodup_cons] at hnd
    rw [tally_cons, tally_cons]
    by_cases hr0 : r0 = r
    · subst hr0
      have hrest : tally ps n g' b = tally ps n g b := by
        apply tally_congr
        intro r' hr' w hw
        have hne : r' ≠ r0 := fun heq => hnd.1 (heq ▸ hr')
        rw [h r' (List.mem_cons_of_mem _ hr') w hw, if_neg fun hc => hne hc.1]
      have hpoint := count_point (p := fun w => g r0 w = some b) (q := fun w => g' r0 w = some b) hv
        fun w hw hne => by rw [h r0 List.mem_cons_self w hw, if_neg fun hc => hne hc.2]
      rw [hat] at hpoint
      unfold held
      omega
    · have hfirst : Nat.count (fun w => g' r0 w = some b) n =
          Nat.count (fun w => g r0 w = some b) n :=
        count_congr fun w hw => by
          rw [h r0 List.mem_cons_self w hw, if_neg fun hc => hr0 hc.1]
      have := ih hnd.2 (List.mem_of_ne_of_mem (Ne.symm hr0) hr)
        fun r' hr' => h r' (List.mem_cons_of_mem _ hr')
      omega

/-- A count of 0 means that no slot holds the value. -/
theorem tally_eq_zero : tally ps n g b = 0 ↔ ∀ r ∈ ps, ∀ v < n, g r v ≠ some b := by
  induction ps with
  | nil => simp
  | cons r ps ih =>
    rw [tally_cons, Nat.add_eq_zero_iff, ih, List.forall_mem_cons, Nat.count_iff_forall_not]

/-- Leaving out one table. -/
theorem tally_erase [DecidableEq α] (hr : r ∈ ps) :
    tally ps n g b = Nat.count (fun v => g r v = some b) n + tally (ps.erase r) n g b := by
  induction ps with
  | nil => cases hr
  | cons r0 ps ih =>
    by_cases hr0 : r0 = r
    · subst hr0
      rw [List.erase_cons_head, tally_cons]
    · rw [List.erase_cons_tail (by simpa using hr0), tally_cons, tally_cons,
        ih (List.mem_of_ne_of_mem (Ne.symm hr0) hr)]
      omega

end PandaOS.Lib
