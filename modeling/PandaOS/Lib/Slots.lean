import Mathlib.Data.List.Nodup
import Mathlib.Tactic.Common

/-!
# Maps kept in slots

A table has a list of places, and an entry at each of them. A live entry binds
its key to its value, any other place is free. Entries are put into free places
and cleared again, and free places may be added; `Represents` says which map the
live entries make up, and one lemma for each of these changes says what becomes
of the map.
-/

namespace PandaOS.Lib

open Function

/-- What an entry means. -/
structure Binding (E K V : Type) where
  live : E → Prop
  key : E → K
  val : E → V

/-- The live entries bind the keys of the map, each key at one place. -/
structure Represents {P E K V : Type} (B : Binding E K V) (places : List P) (entry : P → E)
    (m : K → Option V) : Prop where
  bound : ∀ k v, m k = some v ↔ ∃ p ∈ places, B.live (entry p) ∧
    B.key (entry p) = k ∧ B.val (entry p) = v
  once : ∀ p ∈ places, ∀ q ∈ places, B.live (entry p) → B.live (entry q) →
    B.key (entry p) = B.key (entry q) → p = q

namespace Represents

variable {P E K V : Type} {B : Binding E K V} {places places' : List P} {entry entry' : P → E}
  {m : K → Option V} (h : Represents B places entry m)
include h

/-- The key of a live entry. -/
theorem at_place {p : P} (hp : p ∈ places)
    (hlive : B.live (entry p)) : m (B.key (entry p)) = some (B.val (entry p)) :=
  (h.bound _ _).mpr ⟨p, hp, hlive, rfl, rfl⟩

theorem eq_none {k : K} : m k = none ↔ ∀ p ∈ places, B.live (entry p) → B.key (entry p) ≠ k := by
  constructor
  · rintro hnone p hp hlive rfl
    rw [h.at_place hp hlive] at hnone
    cases hnone
  · intro hall
    rw [Option.eq_none_iff_forall_ne_some]
    intro v hv
    obtain ⟨p, hp, hlive, hkey, -⟩ := (h.bound k v).mp hv
    exact hall p hp hlive hkey

/-- A free place takes an entry with a new key. -/
theorem insert [DecidableEq K] {p : P} {k : K} {v : V}
    (hp : p ∈ places) (hfree : ¬B.live (entry p)) (hlive : B.live (entry' p))
    (hkey : B.key (entry' p) = k) (hval : B.val (entry' p) = v) (hnew : m k = none)
    (hsame : ∀ q ∈ places, q ≠ p → entry' q = entry q) :
    Represents B places entry' (update m k (some v)) := by
  -- elsewhere the key is bound nowhere
  have hother : ∀ q ∈ places, q ≠ p → B.live (entry' q) → B.key (entry' q) ≠ k := by
    intro q hq hqp hl
    rw [hsame q hq hqp] at hl ⊢
    exact h.eq_none.mp hnew q hq hl
  constructor
  · intro k' v'
    by_cases hk : k' = k
    · subst hk
      rw [update_self]
      constructor
      · intro hv
        cases hv
        exact ⟨p, hp, hlive, hkey, hval⟩
      · rintro ⟨q, hq, hl, hk', rfl⟩
        by_cases hqp : q = p
        · rw [hqp, hval]
        · exact absurd hk' (hother q hq hqp hl)
    · rw [update_of_ne hk, h.bound k' v']
      constructor
      · rintro ⟨q, hq, hl, hk', hv'⟩
        have hqp : q ≠ p := fun heq => hfree (heq ▸ hl)
        rw [← hsame q hq hqp] at hl hk' hv'
        exact ⟨q, hq, hl, hk', hv'⟩
      · rintro ⟨q, hq, hl, hk', hv'⟩
        have hqp : q ≠ p := by
          rintro rfl
          exact hk (hk'.symm.trans hkey)
        rw [hsame q hq hqp] at hl hk' hv'
        exact ⟨q, hq, hl, hk', hv'⟩
  · intro q hq r hr hlq hlr heq
    by_cases hqp : q = p
    · subst hqp
      by_contra hne
      exact hother r hr (Ne.symm hne) hlr (heq.symm.trans hkey)
    · by_cases hrp : r = p
      · subst hrp
        exact absurd (heq.trans hkey) (hother q hq hqp hlq)
      · rw [hsame q hq hqp] at hlq heq
        rw [hsame r hr hrp] at hlr heq
        exact h.once q hq r hr hlq hlr heq

/-- A place is cleared. -/
theorem erase [DecidableEq K] {p : P} {k : K} (hp : p ∈ places)
    (hlive : B.live (entry p)) (hkey : B.key (entry p) = k) (hfree : ¬B.live (entry' p))
    (hsame : ∀ q ∈ places, q ≠ p → entry' q = entry q) :
    Represents B places entry' (update m k none) := by
  have hold : ∀ q ∈ places, B.live (entry' q) → q ≠ p ∧ entry' q = entry q := by
    intro q hq hl
    have hqp : q ≠ p := fun heq => hfree (heq ▸ hl)
    exact ⟨hqp, hsame q hq hqp⟩
  constructor
  · intro k' v'
    by_cases hk : k' = k
    · subst hk
      rw [update_self]
      refine ⟨fun hv => absurd hv (by simp), ?_⟩
      rintro ⟨q, hq, hl, hk', -⟩
      obtain ⟨hqp, heq⟩ := hold q hq hl
      rw [heq] at hl hk'
      exact absurd (h.once q hq p hp hl hlive (hk'.trans hkey.symm)) hqp
    · rw [update_of_ne hk, h.bound k' v']
      constructor
      · rintro ⟨q, hq, hl, hk', hv'⟩
        have hqp : q ≠ p := by
          rintro rfl
          exact hk (hk'.symm.trans hkey)
        rw [← hsame q hq hqp] at hl hk' hv'
        exact ⟨q, hq, hl, hk', hv'⟩
      · rintro ⟨q, hq, hl, hk', hv'⟩
        have heq := (hold q hq hl).2
        rw [heq] at hl hk' hv'
        exact ⟨q, hq, hl, hk', hv'⟩
  · intro q hq r hr hlq hlr hkeys
    have heq := (hold q hq hlq).2
    have heq' := (hold r hr hlr).2
    rw [heq] at hlq hkeys
    rw [heq'] at hlr hkeys
    exact h.once q hq r hr hlq hlr hkeys

/-- Free places are added. -/
theorem extend (hsub : ∀ p ∈ places, p ∈ places' ∧ entry' p = entry p)
    (hnew : ∀ p ∈ places', p ∉ places → ¬B.live (entry' p)) : Represents B places' entry' m := by
  have hold : ∀ p ∈ places', B.live (entry' p) → p ∈ places ∧ entry' p = entry p := by
    intro p hp hlive
    by_cases hmem : p ∈ places
    · exact ⟨hmem, (hsub p hmem).2⟩
    · exact absurd hlive (hnew p hp hmem)
  constructor
  · intro k v
    rw [h.bound k v]
    constructor
    · rintro ⟨p, hp, hlive, hkey, hval⟩
      rw [← (hsub p hp).2] at hlive hkey hval
      exact ⟨p, (hsub p hp).1, hlive, hkey, hval⟩
    · rintro ⟨p, hp, hlive, hkey, hval⟩
      obtain ⟨hmem, heq⟩ := hold p hp hlive
      rw [heq] at hlive hkey hval
      exact ⟨p, hmem, hlive, hkey, hval⟩
  · intro p hp q hq hlp hlq hkey
    obtain ⟨hmp, hep⟩ := hold p hp hlp
    obtain ⟨hmq, heq⟩ := hold q hq hlq
    rw [hep] at hlp hkey
    rw [heq] at hlq hkey
    exact h.once p hmp q hmq hlp hlq hkey

end Represents

end PandaOS.Lib
