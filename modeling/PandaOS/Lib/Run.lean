import Mathlib.Tactic.Common

/-!
# Runs of state programs

Programs in `EStateM` carry a state that survives an exception, as kernel code
does: what was written before an error stays written. `Returns x s a s'` is the
relation of `x`'s normal runs; its lemmas take a run of a composed program
apart into the runs of its parts. `Ends` speaks of both outcomes at once and
passes through a composed program from front to back.

`forRange` is a counting loop, with one rule for each kind of run.
-/

namespace PandaOS.Lib

variable {ε σ α β : Type} {x : EStateM ε σ α} {s s' s1 t s2 : σ} {a : α} {e e' : ε}

/-- Started in `s`, the program returns `a` in state `s'`. -/
def Returns (x : EStateM ε σ α) (s : σ) (a : α) (s' : σ) : Prop := x.run s = .ok a s'

/-- Started in `s`, the program throws `e` in state `s'`. -/
def Throws (x : EStateM ε σ α) (s : σ) (e : ε) (s' : σ) : Prop := x.run s = .error e s'

theorem Returns.run_eq (h : Returns x s a s') : x.run s = .ok a s' := h

theorem Throws.run_eq (h : Throws x s e s') : x.run s = .error e s' := h

section

variable {a' : α} {b : β} {f : α → EStateM ε σ β}

@[simp] theorem returns_pure : Returns (pure a : EStateM ε σ α) s a' s' ↔ a' = a ∧ s' = s := by
  simp only [Returns, EStateM.run, pure, EStateM.pure, EStateM.Result.ok.injEq]
  constructor <;> rintro ⟨rfl, rfl⟩ <;> exact ⟨rfl, rfl⟩

@[simp] theorem returns_bind : Returns (x >>= f) s b s' ↔
    ∃ a s1, Returns x s a s1 ∧ Returns (f a) s1 b s' := by
  simp only [Returns, EStateM.run, bind, EStateM.bind]
  cases h : x s with
  | ok a s1 => simp
  | error e s1 => simp

theorem pure_returns (a : α) (s : σ) : Returns (pure a : EStateM ε σ α) s a s := rfl

theorem get_returns (s : σ) : Returns (get : EStateM ε σ σ) s s s := rfl

theorem modify_returns (f : σ → σ) (s : σ) : Returns (modify f : EStateM ε σ PUnit) s ⟨⟩ (f s) :=
  rfl

theorem get_apply (s : σ) : (get : EStateM ε σ σ) s = .ok s s := rfl

theorem modify_apply (f : σ → σ) (s : σ) : (modify f : EStateM ε σ PUnit) s = .ok ⟨⟩ (f s) := rfl

/-- Runs put together. -/
theorem Returns.bind (h : Returns x s a s1) (h' : Returns (f a) s1 b s') :
    Returns (x >>= f) s b s' :=
  returns_bind.mpr ⟨a, s1, h, h'⟩

@[simp] theorem returns_map {f : α → β} : Returns (f <$> x) s b s' ↔
    ∃ a, Returns x s a s' ∧ b = f a := by
  simp only [Returns, EStateM.run, Functor.map, EStateM.map]
  cases h : x s with
  | ok a s1 => simp [eq_comm, and_comm]
  | error e s1 => simp

@[simp] theorem returns_get : Returns (get : EStateM ε σ σ) s t s' ↔ t = s ∧ s' = s := by
  constructor
  · intro h
    cases h
    exact ⟨rfl, rfl⟩
  · rintro ⟨rfl, rfl⟩
    rfl

@[simp] theorem returns_set {u : PUnit} : Returns (set t : EStateM ε σ PUnit) s u s' ↔ s' = t := by
  constructor
  · intro h
    cases h
    rfl
  · rintro rfl
    rfl

@[simp] theorem returns_modify {f : σ → σ} {u : PUnit} :
    Returns (modify f : EStateM ε σ PUnit) s u s' ↔ s' = f s := by
  constructor
  · intro h
    cases h
    rfl
  · rintro rfl
    rfl

@[simp] theorem not_returns_throw : ¬Returns (throw e : EStateM ε σ α) s a s' := by
  intro h
  cases h

/-- A run of a handled program is a run of the program or of its handler. -/
theorem returns_tryCatch {f : ε → EStateM ε σ α} : Returns (tryCatch x f) s a s' ↔
      Returns x s a s' ∨ ∃ e s1, Throws x s e s1 ∧ Returns (f e) s1 a s' := by
  simp only [Returns, Throws, EStateM.run, tryCatch, tryCatchThe,
    MonadExceptOf.tryCatch, EStateM.tryCatch]
  cases h : x s with
  | ok a s1 => simp
  | error e s1 =>
    simp only [EStateM.Result.error.injEq, reduceCtorEq, false_or]
    constructor
    · intro hr
      exact ⟨e, s1, ⟨rfl, rfl⟩, hr⟩
    · rintro ⟨_, _, ⟨rfl, rfl⟩, hr⟩
      exact hr

/-- A run that throws stops in the first part or in the second. -/
@[simp] theorem throws_bind : Throws (x >>= f) s e s' ↔
      Throws x s e s' ∨ ∃ a s1, Returns x s a s1 ∧ Throws (f a) s1 e s' := by
  simp only [Returns, Throws, EStateM.run, bind, EStateM.bind]
  cases h : x s with
  | ok a s1 => simp
  | error e s1 => simp

@[simp] theorem throws_map {f : α → β} : Throws (f <$> x) s e s' ↔ Throws x s e s' := by
  simp only [Throws, EStateM.run, Functor.map, EStateM.map]
  cases h : x s with
  | ok a s1 => simp
  | error e s1 => simp

@[simp] theorem not_throws_pure : ¬Throws (pure a : EStateM ε σ α) s e s' := by
  simp [Throws, EStateM.run, pure, EStateM.pure]

@[simp] theorem not_throws_get : ¬Throws (get : EStateM ε σ σ) s e s' := by
  intro h
  cases h

@[simp] theorem not_throws_modify {f : σ → σ} : ¬Throws (modify f : EStateM ε σ PUnit) s e s' := by
  intro h
  cases h

@[simp] theorem throws_throw : Throws (throw e : EStateM ε σ α) s e' s' ↔ e' = e ∧ s' = s := by
  constructor
  · intro h
    cases h
    exact ⟨rfl, rfl⟩
  · rintro ⟨rfl, rfl⟩
    rfl

/-- Every run returns or throws. -/
theorem returns_or_throws (x : EStateM ε σ α) (s : σ) :
    (∃ a s', Returns x s a s') ∨ ∃ e s', Throws x s e s' := by
  unfold Returns Throws
  cases x.run s with
  | ok a s' => exact .inl ⟨a, s', rfl⟩
  | error e s' => exact .inr ⟨e, s', rfl⟩

/-- A run has one outcome. -/
theorem Returns.unique {a' : α} (h : Returns x s a s1) (h' : Returns x s a' s2) :
    a = a' ∧ s1 = s2 := by
  unfold Returns at h h'
  rw [h] at h'
  cases h'
  exact ⟨rfl, rfl⟩

theorem Throws.unique (h : Throws x s e s1) (h' : Throws x s e' s2) : e = e' ∧ s1 = s2 := by
  unfold Throws at h h'
  rw [h] at h'
  cases h'
  exact ⟨rfl, rfl⟩

theorem not_returns_of_throws (h : Throws x s e s1) : ¬Returns x s a s2 := by
  intro hr
  unfold Throws Returns at *
  rw [h] at hr
  cases hr

/-- The run does not throw. -/
def succeeds (x : EStateM ε σ α) (s : σ) : Bool :=
  match x.run s with
  | .ok _ _ => true
  | .error _ _ => false

/-- What the run throws. -/
def thrown (x : EStateM ε σ α) (s : σ) : Option ε :=
  match x.run s with
  | .ok _ _ => none
  | .error e _ => some e

theorem returns_of_succeeds (h : succeeds x s = true) : ∃ a s', Returns x s a s' := by
  unfold succeeds at h
  split at h
  · exact ⟨_, _, ‹_›⟩
  · cases h

theorem Returns.succeeds (h : Returns x s a s') : Lib.succeeds x s = true := by
  unfold Lib.succeeds
  rw [h.run_eq]

theorem throws_of_thrown (h : thrown x s = some e) : ∃ s', Throws x s e s' := by
  unfold thrown at h
  split at h
  · cases h
  · cases h
    exact ⟨_, ‹_›⟩

end

/-- What the caller sees of a run. -/
def outcome (x : EStateM ε σ α) (s : σ) : Except ε α :=
  match x.run s with
  | .ok a _ => .ok a
  | .error e _ => .error e

theorem Returns.outcome_eq (h : Returns x s a s') : outcome x s = .ok a := by
  unfold outcome
  rw [h.run_eq]

theorem returns_of_outcome (h : outcome x s = .ok a) : ∃ s', Returns x s a s' := by
  unfold outcome at h
  split at h
  · cases h
    exact ⟨_, ‹_›⟩
  · cases h

theorem Throws.outcome_eq (h : Throws x s e s') : outcome x s = .error e := by
  unfold outcome
  rw [h.run_eq]

/-- Stop with `e` if `c` holds. -/
def failIf (c : Bool) (e : ε) : EStateM ε σ Unit := if c then throw e else pure ()

/-! ## Every outcome at once -/

/-- Started in `s`, the program ends with `Q` if it returns and with `E` if it
throws. -/
def Ends (x : EStateM ε σ α) (s : σ) (Q : α → σ → Prop) (E : ε → σ → Prop) : Prop :=
  match x.run s with
  | .ok a s' => Q a s'
  | .error e s' => E e s'

section

variable {Q Q' : α → σ → Prop} {E E' : ε → σ → Prop} {f : α → EStateM ε σ β}

@[simp] theorem ends_pure : Ends (pure a : EStateM ε σ α) s Q E ↔ Q a s := Iff.rfl

@[simp] theorem ends_throw : Ends (throw e : EStateM ε σ α) s Q E ↔ E e s := Iff.rfl

@[simp] theorem ends_get {Q : σ → σ → Prop} : Ends (get : EStateM ε σ σ) s Q E ↔ Q s s := Iff.rfl

@[simp] theorem ends_modify {f : σ → σ} {Q : PUnit → σ → Prop} :
    Ends (modify f : EStateM ε σ PUnit) s Q E ↔ Q ⟨⟩ (f s) := .rfl

@[simp] theorem ends_bind {Q : β → σ → Prop} : Ends (x >>= f) s Q E ↔
    Ends x s (fun a s' => Ends (f a) s' Q E) E := by
  simp only [Ends, EStateM.run, bind, EStateM.bind]
  cases x s <;> rfl

theorem ends_failIf {c : Bool} {Q : Unit → σ → Prop} (hQ : c = false → Q () s) (hE : E e s) :
    Ends (failIf c e) s Q E := by
  cases c with
  | false => exact hQ rfl
  | true => exact hE

theorem ends_failIf_iff {c : Bool} {Q : Unit → σ → Prop} :
    Ends (failIf c e) s Q E ↔ (c = false → Q () s) ∧ (c = true → E e s) := by
  cases c with
  | false => simp [failIf]
  | true => simp [failIf]

theorem ends_failIf_false {Q : Unit → σ → Prop} : Ends (failIf false e) s Q E ↔ Q () s := Iff.rfl

/-- A handler goes on where the exception was thrown. -/
theorem ends_tryCatch {f : ε → EStateM ε σ α} :
    Ends (tryCatch x f) s Q E ↔ Ends x s Q (fun e s' => Ends (f e) s' Q E) := by
  simp only [Ends, EStateM.run, tryCatch, tryCatchThe, MonadExceptOf.tryCatch, EStateM.tryCatch]
  cases x s <;> rfl

theorem Ends.mono (h : Ends x s Q E) (hQ : ∀ a s', Q a s' → Q' a s')
    (hE : ∀ e s', E e s' → E' e s') : Ends x s Q' E' := by
  unfold Ends at *
  split <;> simp_all

theorem Ends.imp (h : Ends x s Q E) (hQ : ∀ a s', Q a s' → Q' a s') : Ends x s Q' E :=
  h.mono hQ fun _ _ he => he

/-- The rule for a sequence. -/
theorem Ends.bind {Q' : β → σ → Prop} (h : Ends x s Q E)
    (hf : ∀ a s', Q a s' → Ends (f a) s' Q' E') (hE : ∀ e s', E e s' → E' e s') :
    Ends (x >>= f) s Q' E' :=
  ends_bind.mpr (h.mono hf hE)

/-- A sequence whose first part fails as the whole may. -/
theorem Ends.seq {Q' : β → σ → Prop} (h : Ends x s Q E)
    (hf : ∀ a s', Q a s' → Ends (f a) s' Q' E) : Ends (x >>= f) s Q' E :=
  h.bind hf fun _ _ he => he

/-- The two kinds of runs apart. -/
theorem ends_iff : Ends x s Q E ↔ (∀ a s', Returns x s a s' → Q a s') ∧
    ∀ e s', Throws x s e s' → E e s' := by
  unfold Ends Returns Throws
  cases x.run s <;> simp

theorem Returns.of_ends (hrun : Returns x s a s') (h : Ends x s Q E) : Q a s' :=
  (ends_iff.mp h).1 a s' hrun

theorem Throws.of_ends (hrun : Throws x s e s') (h : Ends x s Q E) : E e s' :=
  (ends_iff.mp h).2 e s' hrun

/-- Two things known of the same run. -/
theorem Ends.and (h : Ends x s Q E) (h' : Ends x s Q' E') :
    Ends x s (fun a s' => Q a s' ∧ Q' a s') fun e s' => E e s' ∧ E' e s' := by
  rw [ends_iff] at h h' ⊢
  exact ⟨fun a s' hrun => ⟨h.1 a s' hrun, h'.1 a s' hrun⟩,
    fun e s' hrun => ⟨h.2 e s' hrun, h'.2 e s' hrun⟩⟩

/-- What is known of a run, together with the run. -/
theorem Ends.cases (h : Ends x s Q E) :
    (∃ a s', Returns x s a s' ∧ Q a s') ∨ ∃ e s', Throws x s e s' ∧ E e s' := by
  rcases returns_or_throws x s with ⟨a, s', hrun⟩ | ⟨e, s', hrun⟩
  · exact .inl ⟨a, s', hrun, hrun.of_ends h⟩
  · exact .inr ⟨e, s', hrun, hrun.of_ends h⟩

/-- A program that cannot throw returns. -/
theorem Ends.returns (h : Ends x s Q fun _ _ => False) : ∃ a s', Returns x s a s' ∧ Q a s' :=
  h.cases.resolve_right fun ⟨_, _, _, hno⟩ => hno

theorem Ends.returns_eq (h : Ends x s (fun b t => b = a ∧ t = s') fun _ _ => False) :
    Returns x s a s' := by
  obtain ⟨_, _, hret, rfl, rfl⟩ := h.returns
  exact hret

/-- A program that cannot return throws. -/
theorem Ends.throws (h : Ends x s (fun _ _ => False) E) : ∃ e s', Throws x s e s' ∧ E e s' :=
  h.cases.resolve_left fun ⟨_, _, _, hno⟩ => hno

theorem Ends.throws_eq (h : Ends x s (fun _ _ => False) fun e' t => e' = e ∧ t = s') :
    Throws x s e s' := by
  obtain ⟨e', t, hrun, rfl, rfl⟩ := h.throws
  exact hrun

/-- The run itself may be used of its result. -/
theorem Ends.with_run (h : Ends x s Q E) : Ends x s (fun a s' => Q a s' ∧ Returns x s a s') E := by
  rw [ends_iff] at h ⊢
  exact ⟨fun a s' hrun => ⟨h.1 a s' hrun, hrun⟩, h.2⟩

/-- Programs that end alike have the same run. -/
theorem run_eq_of_ends {y : EStateM ε σ α} (h : ∀ Q E, Ends x s Q E ↔ Ends y s Q E) :
    x.run s = y.run s := by
  have hself : Ends y s (fun a s' => y.run s = .ok a s') fun e s' => y.run s = .error e s' :=
    ends_iff.mpr ⟨fun _ _ hrun => hrun, fun _ _ hrun => hrun⟩
  have hsame := ends_iff.mp ((h _ _).mpr hself)
  rcases returns_or_throws x s with ⟨a, s', hrun⟩ | ⟨e, s', hrun⟩
  · rw [hsame.1 a s' hrun, hrun.run_eq]
  · rw [hsame.2 e s' hrun, hrun.run_eq]

theorem Returns.ends (h : Returns x s a s') (hQ : Q a s') : Ends x s Q E := by
  unfold Ends
  rw [h.run_eq]
  exact hQ

/-- A sequence whose first part is known to return. -/
theorem Returns.seq {Q : β → σ → Prop} (h : Returns x s a s') (hf : Ends (f a) s' Q E) :
    Ends (x >>= f) s Q E :=
  ends_bind.mpr (h.ends hf)

theorem Throws.ends (h : Throws x s e s') (hE : E e s') : Ends x s Q E := by
  unfold Ends
  rw [h.run_eq]
  exact hE

/-- How a program ends that is known to return. -/
theorem Returns.ends_iff (h : Returns x s a s') : Ends x s Q E ↔ Q a s' := by
  unfold Ends
  rw [h.run_eq]

/-- How a program ends that is known to throw. -/
theorem Throws.ends_iff (h : Throws x s e s') : Ends x s Q E ↔ E e s' := by
  unfold Ends
  rw [h.run_eq]

@[simp] theorem ends_map {f : α → β} {Q : β → σ → Prop} :
    Ends (f <$> x) s Q E ↔ Ends x s (fun a s' => Q (f a) s') E := by
  simp only [Ends, EStateM.run, Functor.map, EStateM.map]
  cases x s <;> rfl

end

/-! ## Counting loops -/

/-- `for i in start..start+count`. -/
def forRange {m : Type → Type} [Monad m] (start : Nat) : Nat → (Nat → m Unit) → m Unit
  | 0, _ => pure ()
  | n + 1, f => do
    f start
    forRange (start + 1) n f

variable {f : Nat → EStateM ε σ Unit} {start count : Nat}

/-- An invariant that every turn carries from `i` to `i + 1`, for loops that may
throw. -/
theorem ends_forRange_from (I : Nat → σ → Prop) {E : ε → σ → Prop} (hstart : I start s)
    (hturn : ∀ i s, start ≤ i → i < start + count → I i s →
      Ends (f i) s (fun _ s' => I (i + 1) s') E) :
    Ends (forRange start count f) s (fun _ s' => I (start + count) s') E := by
  induction count generalizing start s with
  | zero => exact ends_pure.mpr hstart
  | succ n ih =>
    simp only [forRange, ends_bind]
    refine (hturn start s (Nat.le_refl _) (by omega) hstart).mono
      (fun _ s' hs' => ?_) fun _ _ h => h
    rw [show start + (n + 1) = start + 1 + n by omega]
    exact ih hs' fun i t hlo hhi => hturn i t (by omega) (by omega)

/-- What every turn keeps holds after the loop. -/
theorem ends_forRange {I : σ → Prop} {E : ε → σ → Prop} (hstart : I s)
    (hturn : ∀ i s, start ≤ i → i < start + count → I s → Ends (f i) s (fun _ s' => I s') E) :
    Ends (forRange start count f) s (fun _ s' => I s') E :=
  ends_forRange_from (fun _ => I) hstart hturn

/-- An invariant that every turn carries from `i` to `i + 1` holds at the end. A loop
that throws does so in one of its turns, in a state the invariant describes. -/
theorem forRange_inv (I : Nat → σ → Prop) (hstart : I start s)
    (hturn : ∀ i s s', start ≤ i → i < start + count → I i s →
      Returns (f i) s () s' → I (i + 1) s') :
    Ends (forRange start count f) s (fun _ s' => I (start + count) s')
      fun e s' => ∃ i t, start ≤ i ∧ i < start + count ∧ I i t ∧ Throws (f i) t e s' :=
  ends_forRange_from I hstart fun i t hlo hhi ht => ends_iff.mpr
    ⟨fun _ t' => hturn i t t' hlo hhi ht, fun _ _ hth => ⟨i, t, hlo, hhi, ht, hth⟩⟩

theorem returns_forRange (I : Nat → σ → Prop) {u : Unit} (hstart : I start s)
    (hturn : ∀ i s s', start ≤ i → i < start + count → I i s → Returns (f i) s () s' → I (i + 1) s')
    (h : Returns (forRange start count f) s u s') : I (start + count) s' :=
  (ends_iff.mp (forRange_inv I hstart hturn)).1 u s' h

/-- A loop whose every turn returns from a state the invariant describes returns. -/
theorem forRange_returns (I : Nat → σ → Prop) (hstart : I start s)
    (hturn : ∀ i s, start ≤ i → i < start + count → I i s → ∃ s', Returns (f i) s () s' ∧
      I (i + 1) s') :
    ∃ s', Returns (forRange start count f) s () s' ∧ I (start + count) s' := by
  have hloop := ends_forRange_from (f := f) I (E := fun _ _ => False) hstart
    fun i t hlo hhi ht => by
    obtain ⟨t', hrun, hnext⟩ := hturn i t hlo hhi ht
    exact hrun.ends hnext
  obtain ⟨_, s', hret, hend⟩ := hloop.returns
  exact ⟨s', hret, hend⟩

/-- A loop that comes to a turn that stops, stops there. -/
theorem forRange_throws {i : Nat} (hi : i < count) (hbefore : Returns (forRange start i f) s () s1)
    (hturn : Throws (f (start + i)) s1 e s2) : Throws (forRange start count f) s e s2 := by
  induction i generalizing start count s with
  | zero =>
    obtain ⟨n, rfl⟩ := Nat.exists_eq_add_one.mpr hi
    obtain ⟨-, rfl⟩ := returns_pure.mp hbefore
    exact throws_bind.mpr (.inl hturn)
  | succ i ih =>
    obtain ⟨n, rfl⟩ := Nat.exists_eq_add_one.mpr (Nat.zero_lt_of_lt hi)
    obtain ⟨_, t, hfirst, hrest⟩ := returns_bind.mp hbefore
    rw [Nat.add_comm i 1, ← Nat.add_assoc] at hturn
    exact throws_bind.mpr (.inr ⟨_, t, hfirst, ih (by omega) hrest hturn⟩)

/-! ## Moving along a relation -/

/-- However the program ends, it has moved the state along `R`. -/
def MovesAlong (R : σ → σ → Prop) (x : EStateM ε σ α) : Prop :=
  ∀ s, Ends x s (fun _ s' => R s s') fun _ s' => R s s'

namespace MovesAlong

variable {R : σ → σ → Prop}

theorem modify {f : σ → σ} (h : ∀ s, R s (f s)) : MovesAlong R (modify f : EStateM ε σ PUnit) := h

section

variable [Std.Refl R]

theorem pure (a : α) : MovesAlong R (pure a : EStateM ε σ α) := fun s => Std.Refl.refl s

theorem throw (e : ε) : MovesAlong R (throw e : EStateM ε σ α) := fun s => Std.Refl.refl s

theorem get : MovesAlong R (get : EStateM ε σ σ) := fun s => Std.Refl.refl s

end

variable [IsTrans σ R]

theorem bind {f : α → EStateM ε σ β} (hx : MovesAlong R x) (hf : ∀ a, MovesAlong R (f a)) :
    MovesAlong R (x >>= f) := by
  intro s
  rw [ends_bind]
  refine (hx s).mono (fun a s1 hfirst => ?_) fun _ _ h => h
  exact (hf a s1).mono (fun _ _ hrest => IsTrans.trans _ _ _ hfirst hrest)
    fun _ _ hrest => IsTrans.trans _ _ _ hfirst hrest

theorem tryCatch {f : ε → EStateM ε σ α} (hx : MovesAlong R x)
    (hf : ∀ e, MovesAlong R (f e)) : MovesAlong R (tryCatch x f) := by
  intro s
  rw [ends_tryCatch]
  refine (hx s).mono (fun _ _ h => h) fun e s1 hfirst => ?_
  exact (hf e s1).mono (fun _ _ hrest => IsTrans.trans _ _ _ hfirst hrest)
    fun _ _ hrest => IsTrans.trans _ _ _ hfirst hrest

theorem forRange [Std.Refl R] {f : Nat → EStateM ε σ Unit} (hf : ∀ i, MovesAlong R (f i))
    (start count : Nat) : MovesAlong R (forRange start count f) := by
  induction count generalizing start with
  | zero => exact .pure ()
  | succ n ih => exact (hf start).bind fun _ => ih (start + 1)

end MovesAlong

/-! ## Except -/

theorem ok_of_bind {x : Except ε α} {f : α → Except ε β} {b : β}
    (h : (x >>= f) = .ok b) : ∃ a, x = .ok a ∧ f a = .ok b := by
  cases x with
  | error e => cases h
  | ok a => exact ⟨a, rfl, h⟩

/-- What every turn of a fold keeps holds of its result. -/
theorem foldlM_keeps {P : β → Prop} {f : β → α → Except ε β} {l : List α}
    {b b' : β} (hstep : ∀ b a b', P b → f b a = .ok b' → P b') (hb : P b)
    (h : l.foldlM f b = .ok b') : P b' := by
  induction l generalizing b with
  | nil =>
    cases h
    exact hb
  | cons a l ih =>
    rw [List.foldlM_cons] at h
    obtain ⟨c, hfirst, hrest⟩ := ok_of_bind h
    exact ih (hstep b a c hb hfirst) hrest

end PandaOS.Lib
