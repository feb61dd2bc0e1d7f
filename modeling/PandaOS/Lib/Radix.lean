import Mathlib.Algebra.Group.Nat.Defs
import Mathlib.Data.Set.Basic
import Mathlib.Tactic.Common

/-!
# Radix trees in memory

A radix tree stored in frames: every frame holds `fan` words, and a word either
points at a frame or at nothing. A node is named by its depth and its position
`q` at that depth: the parent of position `q` is position `q / fan`, in whose
frame word `q % fan` is the edge.

`Forest` says that several trees over one memory share no frame. Under it a
store to one word changes one edge and nothing else, which turns stores into
updates of the map from leaf positions to words (`leaf`).
-/

namespace PandaOS.Lib

/-- The shape of a tree: its fan-out and what a word points at. -/
structure Radix (F W : Type) where
  fan : Nat
  fan_pos : 0 < fan
  child : W → Option F

/-- A set of positions that is closed under parents. -/
structure Region (fan : Nat) where
  pos : Nat → Nat → Prop
  root : ∀ q, pos 0 q → q = 0
  parent : ∀ d q, pos (d + 1) q → pos d (q / fan)

namespace Radix

variable {F W : Type} [DecidableEq F] (T : Radix F W)

/-- Memory with one word replaced. -/
def put (mem : F → Nat → W) (t : F) (i : Nat) (w : W) : F → Nat → W :=
  fun f => if f = t then fun j => if j = i then w else mem t j else mem f

theorem put_same (mem : F → Nat → W) (t : F) (i : Nat) (w : W) : put mem t i w t i = w := by
  simp [put]

theorem put_frame (mem : F → Nat → W) {t t' : F} (i : Nat) (w : W) (h : t' ≠ t) :
    put mem t i w t' = mem t' := by
  simp [put, h]

theorem put_index (mem : F → Nat → W) (t : F) {i j : Nat} (w : W) (h : j ≠ i) :
    put mem t i w t j = mem t j := by
  simp [put, h]

/-- A store changes a word only where it goes. -/
theorem put_ne (mem : F → Nat → W) {t t' : F} {i j : Nat} (w : W) (h : ¬(t' = t ∧ j = i)) :
    put mem t i w t' j = mem t' j := by
  by_cases ht : t' = t
  · subst ht
    exact put_index mem t' w fun hj => h ⟨rfl, hj⟩
  · rw [put_frame mem i w ht]

/-- The frame of the node at depth `d` and position `q`. -/
def node (mem : F → Nat → W) (r : F) : Nat → Nat → Option F
  | 0, _ => some r
  | d + 1, q => (node mem r d (q / T.fan)).bind fun t => T.child (mem t (q % T.fan))

/-- The word of a leaf position, whose table is at depth `h`. -/
def slot (h : Nat) (mem : F → Nat → W) (r : F) (v : Nat) : Option W :=
  (T.node mem r h (v / T.fan)).map fun t => mem t (v % T.fan)

/-- The word of a leaf position that points at something. -/
def leaf (h : Nat) (mem : F → Nat → W) (r : F) (v : Nat) : Option W :=
  (T.slot h mem r v).filter fun w => (T.child w).isSome

/-- No word of the frame is an edge. -/
def Barren (mem : F → Nat → W) (f : F) : Prop := ∀ j < T.fan, T.child (mem f j) = none

/-- The trees at `roots` share no frame, down to the tables at depth `h`. -/
def Forest (mem : F → Nat → W) (roots : Set F) (R : Region T.fan) (h : Nat) : Prop :=
  ∀ r ∈ roots, ∀ r' ∈ roots, ∀ d ≤ h, ∀ d' ≤ h, ∀ q q' t, R.pos d q → R.pos d' q' →
    T.node mem r d q = some t → T.node mem r' d' q' = some t → r = r' ∧ d = d' ∧ q = q'

/-- The frame is a table of one of the trees. -/
def IsTable (mem : F → Nat → W) (roots : Set F) (R : Region T.fan) (h : Nat) (t : F) : Prop :=
  ∃ r ∈ roots, ∃ d ≤ h, ∃ q, R.pos d q ∧ T.node mem r d q = some t

/-! ## Positions -/

omit [DecidableEq F] in
theorem child_div {i : Nat} (q : Nat) (hi : i < T.fan) : (q * T.fan + i) / T.fan = q := by
  rw [Nat.add_comm, Nat.add_mul_div_right _ _ T.fan_pos, Nat.div_eq_of_lt hi, Nat.zero_add]

omit [DecidableEq F] in
theorem child_mod {i : Nat} (q : Nat) (hi : i < T.fan) : (q * T.fan + i) % T.fan = i := by
  rw [Nat.mul_comm, Nat.mul_add_mod, Nat.mod_eq_of_lt hi]

omit [DecidableEq F] in
theorem div_mod_fan (q : Nat) : q / T.fan * T.fan + q % T.fan = q := Nat.div_add_mod' q T.fan

omit [DecidableEq F] in
theorem node_succ (mem : F → Nat → W) (r : F) (d q : Nat) : T.node mem r (d + 1) q =
      (T.node mem r d (q / T.fan)).bind fun t => T.child (mem t (q % T.fan)) := rfl

omit [DecidableEq F] in
theorem node_child {mem : F → Nat → W} {r t : F} {d q i : Nat} (hi : i < T.fan)
    (h : T.node mem r d q = some t) : T.node mem r (d + 1) (q * T.fan + i) = T.child (mem t i) := by
  rw [node_succ, T.child_div q hi, T.child_mod q hi, h, Option.bind_some]

omit [DecidableEq F] in
/-- Nothing is below a missing node. -/
theorem node_below_none {mem : F → Nat → W} {r : F} {d : Nat} (k : Nat) :
    ∀ q, T.node mem r d (q / T.fan ^ k) = none → T.node mem r (d + k) q = none := by
  induction k with
  | zero =>
    intro q h
    rwa [Nat.pow_zero, Nat.div_one] at h
  | succ k ih =>
    intro q h
    rw [Nat.pow_succ', ← Nat.div_div_eq_div_mul] at h
    rw [← Nat.add_assoc, node_succ, ih _ h]
    rfl

/-! ## Stores that touch no table -/

section

variable {mem mem' : F → Nat → W} {roots : Set F} {R : Region T.fan} {h : Nat}

/-- The two memories have the same words where the trees use them. -/
def Agree (T : Radix F W) (mem mem' : F → Nat → W) (roots : Set F) (R : Region T.fan)
    (h : Nat) : Prop :=
  ∀ r ∈ roots, ∀ d ≤ h, ∀ q t, T.node mem r d (q / T.fan) = some t → R.pos (d + 1) q →
    mem' t (q % T.fan) = mem t (q % T.fan)

omit [DecidableEq F] in
theorem node_agree (ha : Agree T mem mem' roots R h) {r : F} (hr : r ∈ roots) :
    ∀ d ≤ h + 1, ∀ q, R.pos d q → T.node mem' r d q = T.node mem r d q := by
  intro d
  induction d with
  | zero => intro _ _ _; rfl
  | succ d ih =>
    intro hd q hq
    rw [node_succ, node_succ, ih (by omega) _ (R.parent d q hq)]
    cases hn : T.node mem r d (q / T.fan) with
    | none => rfl
    | some t => rw [Option.bind_some, Option.bind_some, ha r hr d (by omega) q t hn hq]

omit [DecidableEq F] in
theorem Agree.trans {mem'' : F → Nat → W} (ha : Agree T mem mem' roots R h)
    (ha' : Agree T mem' mem'' roots R h) : Agree T mem mem'' roots R h := by
  intro r hr d hd q t hn hq
  have hn' : T.node mem' r d (q / T.fan) = some t := by
    rw [T.node_agree ha hr d (by omega) _ (R.parent d q hq)]
    exact hn
  rw [ha' r hr d hd q t hn' hq, ha r hr d hd q t hn hq]

omit [DecidableEq F] in
theorem leaf_agree (ha : Agree T mem mem' roots R h) {r : F} (hr : r ∈ roots) {v : Nat}
    (hv : R.pos (h + 1) v) : T.leaf h mem' r v = T.leaf h mem r v := by
  unfold leaf slot
  rw [T.node_agree ha hr h (by omega) _ (R.parent h v hv)]
  cases hn : T.node mem r h (v / T.fan) with
  | none => rfl
  | some t => rw [Option.map_some, Option.map_some, ha r hr h le_rfl v t hn hv]

omit [DecidableEq F] in
theorem Forest.agree (hf : T.Forest mem roots R h) (ha : Agree T mem mem' roots R h) :
    T.Forest mem' roots R h := by
  intro r hr r' hr' d hd d' hd' q q' t hq hq' hn hn'
  rw [T.node_agree ha hr d (by omega) q hq] at hn
  rw [T.node_agree ha hr' d' (by omega) q' hq'] at hn'
  exact hf r hr r' hr' d hd d' hd' q q' t hq hq' hn hn'

omit [DecidableEq F] in
theorem isTable_agree (ha : Agree T mem mem' roots R h) (t : F) :
    T.IsTable mem' roots R h t ↔ T.IsTable mem roots R h t := by
  constructor
  · rintro ⟨r, hr, d, hd, q, hq, hn⟩
    exact ⟨r, hr, d, hd, q, hq, by rwa [T.node_agree ha hr d (by omega) q hq] at hn⟩
  · rintro ⟨r, hr, d, hd, q, hq, hn⟩
    exact ⟨r, hr, d, hd, q, hq, by rwa [T.node_agree ha hr d (by omega) q hq]⟩

omit [DecidableEq F] in
/-- A memory that differs only in frames that are no tables agrees. -/
theorem agree_of_frames (hm : ∀ t, T.IsTable mem roots R h t → mem' t = mem t) :
    Agree T mem mem' roots R h := by
  intro r hr d hd q t hn hq
  rw [hm t ⟨r, hr, d, hd, q / T.fan, R.parent d q hq, hn⟩]

end

/-! ## Stores to an edge -/

section

variable {mem : F → Nat → W} {roots : Set F} {R : Region T.fan} {h : Nat}
  {r0 t : F} {d0 q0 i : Nat} {w : W}

/-- A store to word `i` of the table at `(d0, q0)` of `r0`. What is below the
edge, before and after, is an empty table or no table at all. -/
structure EdgeStore (T : Radix F W) (mem : F → Nat → W) (roots : Set F) (R : Region T.fan)
    (h : Nat) (r0 : F) (d0 q0 i : Nat) (t : F) (w : W) : Prop where
  forest : T.Forest mem roots R h
  root : r0 ∈ roots
  depth : d0 ≤ h
  pos : R.pos (d0 + 1) (q0 * T.fan + i)
  index : i < T.fan
  table : T.node mem r0 d0 q0 = some t
  before : d0 < h → ∀ f, T.child (mem t i) = some f → T.Barren mem f
  after : d0 < h → ∀ f, T.child w = some f → f ≠ t ∧ T.Barren mem f

namespace EdgeStore

variable (e : EdgeStore T mem roots R h r0 d0 q0 i t w)
include e

omit [DecidableEq F] in
theorem pos_table : R.pos d0 q0 := by
  have := R.parent d0 _ e.pos
  rwa [T.child_div q0 e.index] at this

omit [DecidableEq F] in
/-- Only the edge's own position has the stored word as its edge. -/
theorem position {r : F} (hr : r ∈ roots) {d q : Nat} (hd : d ≤ h) (hq : R.pos (d + 1) q)
    (hn : T.node mem r d (q / T.fan) = some t) (hi : q % T.fan = i) :
    r = r0 ∧ d = d0 ∧ q = q0 * T.fan + i := by
  obtain ⟨hr', hd', hq'⟩ := e.forest r hr r0 e.root d hd d0 e.depth _ _ t (R.parent d q hq)
    e.pos_table hn e.table
  refine ⟨hr', hd', ?_⟩
  rw [← hq', ← hi, T.div_mod_fan]

/-- The store moves one edge and leaves every other node where it was. -/
theorem node_put {r : F} (hr : r ∈ roots) : ∀ d ≤ h + 1, ∀ q, R.pos d q →
    T.node (put mem t i w) r d q =
      if r = r0 ∧ d = d0 + 1 ∧ q = q0 * T.fan + i then T.child w else T.node mem r d q := by
  intro d
  induction d with
  | zero =>
    intro _ q _
    rw [if_neg (by omega)]
    rfl
  | succ d ih =>
    intro hd q hq
    rw [node_succ, node_succ, ih (by omega) _ (R.parent d q hq)]
    by_cases hp : r = r0 ∧ d = d0 + 1 ∧ q / T.fan = q0 * T.fan + i
    · -- below the edge: the tables there are empty before and after
      obtain ⟨rfl, rfl, hqq⟩ := hp
      rw [if_pos ⟨rfl, rfl, hqq⟩, if_neg (by omega)]
      have hbefore : T.node mem r (d0 + 1) (q / T.fan) = T.child (mem t i) := by
        rw [hqq]
        exact T.node_child e.index e.table
      rw [hbefore]
      have hold : ((T.child (mem t i)).bind fun t' => T.child (mem t' (q % T.fan))) = none := by
        cases hc : T.child (mem t i) with
        | none => rfl
        | some f => exact e.before (by omega) f hc _ (Nat.mod_lt q T.fan_pos)
      have hnew : ((T.child w).bind fun t' => T.child (put mem t i w t' (q % T.fan))) = none := by
        cases hc : T.child w with
        | none => rfl
        | some f =>
          obtain ⟨hne, hb⟩ := e.after (by omega) f hc
          rw [Option.bind_some, put_frame mem i w hne]
          exact hb _ (Nat.mod_lt q T.fan_pos)
      rw [hold, hnew]
    · rw [if_neg hp]
      cases hn : T.node mem r d (q / T.fan) with
      | none =>
        rw [if_neg]
        · rfl
        · rintro ⟨rfl, hd', rfl⟩
          obtain rfl : d = d0 := by omega
          rw [T.child_div q0 e.index, e.table] at hn
          exact absurd hn (by simp)
      | some t' =>
        simp only [Option.bind_some]
        by_cases ht : t' = t ∧ q % T.fan = i
        · obtain ⟨rfl, hi⟩ := ht
          obtain ⟨hr', hd', hq'⟩ := e.position T hr (by omega) hq hn hi
          rw [if_pos ⟨hr', by omega, hq'⟩, hi, put_same]
        · rw [put_ne mem w ht, if_neg]
          rintro ⟨rfl, hd', rfl⟩
          obtain rfl : d = d0 := by omega
          rw [T.child_div q0 e.index, e.table] at hn
          exact ht ⟨(Option.some.inj hn).symm, T.child_mod q0 e.index⟩

/-- An edge after the store is the stored word or an old edge. -/
theorem edge_put {r t' : F} (hr : r ∈ roots) {d q : Nat} (hd : d ≤ h) (hq : R.pos (d + 1) q)
    (hn : T.node (put mem t i w) r d (q / T.fan) = some t')
    (hc : T.child (put mem t i w t' (q % T.fan)) ≠ none) :
    d = d0 ∧ put mem t i w t' (q % T.fan) = w ∨ T.node mem r d (q / T.fan) = some t' ∧
        put mem t i w t' (q % T.fan) = mem t' (q % T.fan) := by
  rw [e.node_put T hr d (by omega) _ (R.parent d q hq)] at hn
  by_cases hp : r = r0 ∧ d = d0 + 1 ∧ q / T.fan = q0 * T.fan + i
  · -- the table just attached is empty
    rw [if_pos hp] at hn
    obtain ⟨hne, hb⟩ := e.after (by omega) t' hn
    rw [put_frame mem i w hne] at hc
    exact absurd (hb _ (Nat.mod_lt q T.fan_pos)) hc
  · rw [if_neg hp] at hn
    by_cases ht : t' = t ∧ q % T.fan = i
    · obtain ⟨rfl, hi⟩ := ht
      obtain ⟨-, hd', -⟩ := e.position T hr hd hq hn hi
      exact .inl ⟨hd', by rw [hi, put_same]⟩
    · exact .inr ⟨hn, put_ne mem w ht⟩

/-- Attaching or detaching an empty table changes no leaf. -/
theorem leaf_put_inner (hd : d0 < h) {r : F} (hr : r ∈ roots) {v : Nat} (hv : R.pos (h + 1) v) :
    T.leaf h (put mem t i w) r v = T.leaf h mem r v := by
  have hb : ∀ f, T.Barren mem f →
      (Option.filter (fun w => (T.child w).isSome) (some (mem f (v % T.fan)))) = none := by
    intro f hf
    rw [Option.filter_some, hf (v % T.fan) (Nat.mod_lt v T.fan_pos)]
    rfl
  unfold leaf slot
  rw [e.node_put T hr h (by omega) _ (R.parent h v hv)]
  by_cases hp : r = r0 ∧ h = d0 + 1 ∧ v / T.fan = q0 * T.fan + i
  · obtain ⟨rfl, rfl, hvv⟩ := hp
    rw [if_pos ⟨rfl, rfl, hvv⟩, hvv, T.node_child e.index e.table]
    have hold : ((T.child (mem t i)).map fun t' => mem t' (v % T.fan)).filter
        (fun w => (T.child w).isSome) = none := by
      cases hc : T.child (mem t i) with
      | none => rfl
      | some f => exact hb f (e.before hd f hc)
    have hnew : ((T.child w).map fun t' => put mem t i w t' (v % T.fan)).filter
        (fun w => (T.child w).isSome) = none := by
      cases hc : T.child w with
      | none => rfl
      | some f =>
        obtain ⟨hne, hf⟩ := e.after hd f hc
        rw [Option.map_some, put_frame mem i w hne]
        exact hb f hf
    rw [hold, hnew]
  · rw [if_neg hp]
    cases hn : T.node mem r h (v / T.fan) with
    | none => rfl
    | some t' =>
      -- a table at depth `h` is not the one written to
      have hne : t' ≠ t := by
        rintro rfl
        obtain ⟨-, hh, -⟩ := e.forest r hr r0 e.root h le_rfl d0 e.depth _ _ t'
          (R.parent h v hv) e.pos_table hn e.table
        omega
      rw [Option.map_some, Option.map_some, put_frame mem i w hne]

/-- A store to a table at depth `h` changes one leaf. -/
theorem leaf_put_leaf (hd : d0 = h) {r : F} (hr : r ∈ roots) {v : Nat} (hv : R.pos (h + 1) v) :
    T.leaf h (put mem t i w) r v =
      if r = r0 ∧ v = q0 * T.fan + i then (some w).filter fun w => (T.child w).isSome
      else T.leaf h mem r v := by
  subst hd
  unfold leaf slot
  rw [e.node_put T hr d0 (by omega) _ (R.parent d0 v hv), if_neg (by omega)]
  by_cases hp : r = r0 ∧ v = q0 * T.fan + i
  · obtain ⟨rfl, rfl⟩ := hp
    rw [if_pos ⟨rfl, rfl⟩, T.child_div q0 e.index, T.child_mod q0 e.index,
      e.table, Option.map_some, put_same]
  · rw [if_neg hp]
    cases hn : T.node mem r d0 (v / T.fan) with
    | none => rfl
    | some t' =>
      rw [Option.map_some, Option.map_some, put_ne mem w]
      rintro ⟨rfl, hi⟩
      obtain ⟨hr', -, hv'⟩ := e.position T hr le_rfl hv hn hi
      exact hp ⟨hr', hv'⟩

/-- The trees stay apart if a new table was part of none of them. -/
theorem forest_put (hnew : d0 < h → ∀ f, T.child w = some f → ¬T.IsTable mem roots R h f) :
    T.Forest (put mem t i w) roots R h := by
  intro r hr r' hr' d hd d' hd' q q' f hq hq' hn hn'
  rw [e.node_put T hr d (by omega) q hq] at hn
  rw [e.node_put T hr' d' (by omega) q' hq'] at hn'
  by_cases hp : r = r0 ∧ d = d0 + 1 ∧ q = q0 * T.fan + i
  · rw [if_pos hp] at hn
    by_cases hp' : r' = r0 ∧ d' = d0 + 1 ∧ q' = q0 * T.fan + i
    · exact ⟨hp.1.trans hp'.1.symm, hp.2.1.trans hp'.2.1.symm, hp.2.2.trans hp'.2.2.symm⟩
    · rw [if_neg hp'] at hn'
      exact absurd ⟨r', hr', d', hd', q', hq', hn'⟩ (hnew (by omega) f hn)
  · rw [if_neg hp] at hn
    by_cases hp' : r' = r0 ∧ d' = d0 + 1 ∧ q' = q0 * T.fan + i
    · rw [if_pos hp'] at hn'
      exact absurd ⟨r, hr, d, hd, q, hq, hn⟩ (hnew (by omega) f hn')
    · rw [if_neg hp'] at hn'
      exact e.forest r hr r' hr' d hd d' hd' q q' f hq hq' hn hn'

/-- After the store a table is an old one or the one the new word points at. -/
theorem isTable_put {f : F} (hf : T.IsTable (put mem t i w) roots R h f) :
    T.IsTable mem roots R h f ∨ (d0 < h ∧ T.child w = some f) := by
  obtain ⟨r, hr, d, hd, q, hq, hn⟩ := hf
  rw [e.node_put T hr d (by omega) q hq] at hn
  by_cases hp : r = r0 ∧ d = d0 + 1 ∧ q = q0 * T.fan + i
  · rw [if_pos hp] at hn
    exact .inr ⟨by omega, hn⟩
  · rw [if_neg hp] at hn
    exact .inl ⟨r, hr, d, hd, q, hq, hn⟩

end EdgeStore

end

/-! ## Adding and removing trees -/

section

variable {mem : F → Nat → W} {roots : Set F} {R : Region T.fan} {h : Nat}

omit [DecidableEq F] in
/-- Below a root without edges there is nothing. -/
theorem node_empty {r : F} (hb : ∀ q, R.pos 1 q → T.child (mem r (q % T.fan)) = none) :
    ∀ d q, R.pos (d + 1) q → T.node mem r (d + 1) q = none := by
  intro d
  induction d with
  | zero =>
    intro q hq
    exact hb q hq
  | succ d ih =>
    intro q hq
    rw [node_succ, ih _ (R.parent (d + 1) q hq)]
    rfl

omit [DecidableEq F] in
theorem leaf_empty {r : F} (hb : ∀ q, R.pos 1 q → T.child (mem r (q % T.fan)) = none) {v : Nat}
    (hv : R.pos (h + 1) v) : T.leaf h mem r v = none := by
  cases h with
  | zero =>
    unfold leaf slot node
    rw [Option.map_some, Option.filter_some, hb v hv]
    rfl
  | succ h =>
    unfold leaf slot
    rw [T.node_empty hb h _ (R.parent (h + 1) v hv)]
    rfl

omit [DecidableEq F] in
/-- A frame that is no table becomes the root of one more, empty, tree. -/
theorem Forest.insert {r1 : F} (hf : T.Forest mem roots R h) (hnew : ¬T.IsTable mem roots R h r1)
    (hb : ∀ q, R.pos 1 q → T.child (mem r1 (q % T.fan)) = none) :
    T.Forest mem (insert r1 roots) R h := by
  have hroot : ∀ d q t, R.pos d q → T.node mem r1 d q = some t → d = 0 ∧ q = 0 ∧ t = r1 := by
    intro d q t hq hn
    cases d with
    | zero => exact ⟨rfl, R.root q hq, (Option.some.inj hn).symm⟩
    | succ d => exact absurd ((T.node_empty hb d q hq).symm.trans hn) (by simp)
  intro r hr r' hr' d hd d' hd' q q' t hq hq' hn hn'
  rcases hr with rfl | hr <;> rcases hr' with rfl | hr'
  · obtain ⟨rfl, rfl, -⟩ := hroot d q t hq hn
    obtain ⟨rfl, rfl, -⟩ := hroot d' q' t hq' hn'
    exact ⟨rfl, rfl, rfl⟩
  · obtain ⟨-, -, rfl⟩ := hroot d q t hq hn
    exact absurd ⟨r', hr', d', hd', q', hq', hn'⟩ hnew
  · obtain ⟨-, -, rfl⟩ := hroot d' q' t hq' hn'
    exact absurd ⟨r, hr, d, hd, q, hq, hn⟩ hnew
  · exact hf r hr r' hr' d hd d' hd' q q' t hq hq' hn hn'

omit [DecidableEq F] in
theorem Forest.subset {roots' : Set F} (hf : T.Forest mem roots R h) (hs : roots' ⊆ roots) :
    T.Forest mem roots' R h :=
  fun r hr r' hr' => hf r (hs hr) r' (hs hr')

end

end Radix

end PandaOS.Lib
