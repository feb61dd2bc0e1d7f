import PandaOS.Lib.Run

/-!
# Programs on a part of the state

A program that works on a part of a larger state is run there with `zoom`: the
part is taken out, the program run on it, and the part put back whatever the
outcome. `zoomOr` is for a part that may be missing, and `ask` for a question
that changes nothing.
-/

namespace PandaOS.Lib

variable {δ ε σ τ α : Type}

/-- A question to the state. -/
def ask (x : σ → Except ε α) : EStateM ε σ α := fun s =>
  match x s with
  | .ok a => .ok a s
  | .error e => .error e s

/-- Run a program on a part of the state. -/
def zoom (view : σ → τ) (store : σ → τ → σ) (lift : δ → ε) (x : EStateM δ τ α) :
    EStateM ε σ α := fun s =>
  match x.run (view s) with
  | .ok a t => .ok a (store s t)
  | .error e t => .error (lift e) (store s t)

/-- Run a program on a part of the state, or throw `missing` if it is not there. -/
def zoomOr (view : σ → Option τ) (store : σ → τ → σ) (missing : ε)
    (lift : δ → ε) (x : EStateM δ τ α) : EStateM ε σ α := fun s =>
  match view s with
  | none => .error missing s
  | some t =>
    match x.run t with
    | .ok a t' => .ok a (store s t')
    | .error e t' => .error (lift e) (store s t')

variable {s : σ} {Q : α → σ → Prop} {E : ε → σ → Prop} {view : σ → τ} {view? : σ → Option τ}
  {store : σ → τ → σ} {missing : ε} {lift : δ → ε} {x : EStateM δ τ α}

theorem ends_ask {x : σ → Except ε α} :
    Ends (ask x) s Q E ↔ (∀ a, x s = .ok a → Q a s) ∧ ∀ e, x s = .error e → E e s := by
  unfold Ends ask
  dsimp only [EStateM.run]
  cases x s with
  | ok a => simp
  | error e => simp

theorem ends_zoom : Ends (zoom view store lift x) s Q E ↔
    Ends x (view s) (fun a t => Q a (store s t)) fun e t => E (lift e) (store s t) := by
  unfold Ends zoom
  dsimp only [EStateM.run]
  cases x (view s) with
  | ok a t => exact .rfl
  | error e t => exact .rfl

theorem ends_zoomOr_some {t : τ} (h : view? s = some t) :
    Ends (zoomOr view? store missing lift x) s Q E ↔
    Ends x t (fun a t' => Q a (store s t')) fun e t' => E (lift e) (store s t') := by
  unfold Ends zoomOr
  dsimp only [EStateM.run]
  rw [h]
  dsimp only
  cases x t with
  | ok a t' => exact .rfl
  | error e t' => exact .rfl

theorem ends_zoomOr_none (h : view? s = none) : Ends (zoomOr view? store missing lift x) s Q E ↔
    E missing s := by
  unfold Ends zoomOr
  dsimp only [EStateM.run]
  rw [h]

/-! ## Moving along a relation -/

namespace MovesAlong

variable {R : σ → σ → Prop} {S : τ → τ → Prop}

theorem ask [Std.Refl R] (x : σ → Except ε α) : MovesAlong R (ask x) := fun s =>
  ends_ask.mpr ⟨fun _ _ => Std.Refl.refl s, fun _ _ => Std.Refl.refl s⟩

theorem zoom (hx : MovesAlong S x) (h : ∀ s t, S (view s) t → R s (store s t)) :
    MovesAlong R (zoom view store lift x) := fun s =>
  ends_zoom.mpr ((hx (view s)).mono (fun _ t => h s t) fun _ t => h s t)

theorem zoomOr [Std.Refl R] (hx : MovesAlong S x) (h : ∀ s t t', view? s = some t →
    S t t' → R s (store s t')) : MovesAlong R (zoomOr view? store missing lift x) := by
  intro s
  cases hview : view? s with
  | none => exact (ends_zoomOr_none hview).mpr (Std.Refl.refl s)
  | some t =>
    rw [ends_zoomOr_some hview]
    exact (hx t).mono (fun _ t' => h s t t' hview) fun _ t' => h s t t' hview

end MovesAlong

end PandaOS.Lib
