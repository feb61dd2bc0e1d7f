import Mathlib.Data.List.Basic
import Mathlib.Data.Nat.ModEq

/-!
# Circular storage

`n` cells used as a ring. `window` is the run of `k` cells from a position on,
in order; `putAll` stores a list cell by cell and `takeAll` reads a run cell by
cell, each advancing its position modulo `n`. Storing after a window that
leaves room extends the window by what was stored.
-/

namespace PandaOS.Lib.Ring

variable {α : Type} {n : Nat}

/-- Store a list from position `w` on. -/
def putAll (n : Nat) (cells : Nat → α) (w : Nat) : List α → (Nat → α) × Nat
  | [] => (cells, w)
  | b :: bs => putAll n (fun j => if j = w then b else cells j) ((w + 1) % n) bs

/-- Read `k` cells from position `r` on. -/
def takeAll (n : Nat) (cells : Nat → α) : Nat → Nat → List α × Nat
  | 0, r => ([], r)
  | k + 1, r =>
    ((cells r :: (takeAll n cells k ((r + 1) % n)).1), (takeAll n cells k ((r + 1) % n)).2)

/-- The `k` cells from position `r` on. -/
def window (n : Nat) (cells : Nat → α) (r k : Nat) : List α :=
  (List.range k).map fun i => cells ((r + i) % n)

section

variable (cells : Nat → α)
include cells

@[simp] theorem window_zero (r : Nat) : window n cells r 0 = [] := rfl

@[simp] theorem length_window (r k : Nat) : (window n cells r k).length = k := by
  simp [window]

theorem window_succ (r k : Nat) :
    window n cells r (k + 1) = window n cells r k ++ [cells ((r + k) % n)] := by
  simp [window, List.range_succ]

/-- A window is a first part and the rest. -/
theorem window_add (r k m : Nat) :
    window n cells r (k + m) = window n cells r k ++ window n cells ((r + k) % n) m := by
  induction m with
  | zero => simp
  | succ m ih =>
    rw [← Nat.add_assoc, window_succ, ih, window_succ, List.append_assoc,
      Nat.mod_add_mod, Nat.add_assoc]

end

theorem window_one {r : Nat} (hr : r < n) (cells : Nat → α) : window n cells r 1 = [cells r] := by
  rw [window_succ, window_zero, List.nil_append, Nat.add_zero, Nat.mod_eq_of_lt hr]

/-- Two positions of one turn are different cells. -/
theorem cell_ne {r i k : Nat} (hi : i < k) (hk : k < n) : (r + i) % n ≠ (r + k) % n := by
  intro heq
  have hmod : Nat.ModEq n i k := Nat.ModEq.add_left_cancel' r heq
  have hik : i = k := Nat.ModEq.eq_of_lt_of_lt hmod (by omega) hk
  omega

/-- A store right after a window does not change it. -/
theorem window_store_after {cells : Nat → α} {r k : Nat} (hk : k < n) (b : α) :
    window n (fun j => if j = (r + k) % n then b else cells j) r k = window n cells r k := by
  unfold window
  apply List.map_congr_left
  intro i hi
  exact if_neg (cell_ne (List.mem_range.mp hi) hk)

/-- Storing a list after a window appends it. -/
theorem window_putAll (data : List α) (cells : Nat → α) {r k : Nat} (hroom : k + data.length ≤ n) :
    window n (putAll n cells ((r + k) % n) data).1 r (k + data.length) = window n cells r k ++
      data ∧ (putAll n cells ((r + k) % n) data).2 = (r + (k + data.length)) % n := by
  induction data generalizing cells k with
  | nil => simp [putAll]
  | cons b bs ih =>
    rw [List.length_cons] at hroom ⊢
    have hnext : ((r + k) % n + 1) % n = (r + (k + 1)) % n := by rw [Nat.mod_add_mod, Nat.add_assoc]
    obtain ⟨hwin, hpos⟩ := ih (fun j => if j = (r + k) % n then b else cells j)
      (k := k + 1) (by omega)
    unfold putAll
    rw [hnext, show k + (bs.length + 1) = k + 1 + bs.length by omega]
    refine ⟨?_, hpos⟩
    rw [hwin, window_succ, window_store_after (by omega), if_pos rfl, List.append_assoc]
    rfl

/-- Reading a run gives its window. -/
theorem takeAll_eq (cells : Nat → α) (k : Nat) {r : Nat} (hr : r < n) :
    takeAll n cells k r = (window n cells r k, (r + k) % n) := by
  induction k generalizing r with
  | zero => simp [takeAll, Nat.mod_eq_of_lt hr]
  | succ k ih =>
    have hlt : (r + 1) % n < n := Nat.mod_lt _ (by omega)
    unfold takeAll
    rw [ih hlt, Nat.add_comm k 1, window_add, window_one hr, Nat.mod_add_mod, Nat.add_assoc]
    rfl

end PandaOS.Lib.Ring
