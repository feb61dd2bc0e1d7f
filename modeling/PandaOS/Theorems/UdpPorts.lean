import PandaOS.Kernel.Net
import PandaOS.Lib.TSys

/-!
# Ephemeral ports

`bind` with port 0 tries one port only, the one that its cursor is at.
-/

namespace PandaOS.Kernel.Net.UdpPorts

open Lib

variable {s s' : UdpPorts} {port : U16}

/-- Any sequence of calls. -/
def portCalls : TSys UdpPorts where
  init s := s = boot
  step s s' := ∃ port, (∃ p, Returns (bind port) s p s') ∨ (∃ e, Throws (bind port) s e s') ∨
    s' = s.unbind port

/-- What `bind` is for. -/
structure BindSound (s : UdpPorts) : Prop where
  ephemeral : (∃ p s', Returns (bind 0) s p s') ↔ ∃ p : U16, 49152 ≤ p ∧ s.sockets p = none
  given : ∀ port ≠ 0, (∃ p s', Returns (bind port) s p s') ↔ s.sockets port = none
  fresh : ∀ port p s', Returns (bind port) s p s' → s.sockets p = none
  kept : ∀ port p s', Returns (bind port) s p s' → ∀ q ≠ p, s'.sockets q = s.sockets q
  refused : ∀ port e s', Throws (bind port) s e s' → s'.sockets = s.sockets

/-- The port that is tried. -/
def tried (s : UdpPorts) (port : U16) : U16 := if port = 0 then s.nextEphemeralPort else port

/-- The cursor moves on if it was asked for a port. -/
def advance (s : UdpPorts) (port : U16) : UdpPorts :=
  if port = 0 then
    { s with
      nextEphemeralPort := if s.nextEphemeralPort = 65535 then 49152 else s.nextEphemeralPort + 1 }
  else s

theorem advance_sockets : (s.advance port).sockets = s.sockets := by
  unfold advance
  split <;> rfl

theorem advance_cursor (h : 49152 ≤ s.nextEphemeralPort) :
    49152 ≤ (s.advance port).nextEphemeralPort := by
  unfold advance
  split
  · dsimp only
    split
    · decide
    · bv_omega
  · exact h

theorem bind_ends (s : UdpPorts) (port : U16) :
    Ends (bind port) s (fun p s' => p = s.tried port ∧ s.sockets p = none ∧
      s' = { s.advance port with sockets := Function.update s.sockets p (some (.new p)) })
    fun _ s' => s.sockets (s.tried port) ≠ none ∧ s' = s.advance port := by
  unfold bind tried advance
  by_cases hport : port = 0
  · simp only [hport, if_true]
    cases hsocket : s.sockets s.nextEphemeralPort with
    | none => simp [ends_bind, hsocket]
    | some socket => simp [ends_bind, hsocket]
  · simp only [hport, if_false]
    cases hsocket : s.sockets port with
    | none => simp [ends_bind, hsocket]
    | some socket => simp [ends_bind, hsocket]

theorem bind_returns_iff : (∃ p s', Returns (bind port) s p s') ↔
    s.sockets (s.tried port) = none := by
  constructor
  · rintro ⟨p, s', hrun⟩
    obtain ⟨rfl, hfree, -⟩ := hrun.of_ends (bind_ends s port)
    exact hfree
  · intro hfree
    rcases (bind_ends s port).cases with ⟨p, s', hrun, -⟩ | ⟨e, s', -, htaken, -⟩
    · exact ⟨p, s', hrun⟩
    · exact absurd hfree htaken

/-- In every run, `bind` is as it should be exactly where the port under the cursor is free,
or no ephemeral port is. -/
theorem bindSound_iff (hreach : portCalls.Reachable s) : BindSound s ↔
    s.sockets s.nextEphemeralPort = none ∨ ∀ p : U16, 49152 ≤ p → s.sockets p ≠ none := by
  have hcursor : 49152 ≤ s.nextEphemeralPort := by
    refine TSys.Inductive.invariant (P := fun s => 49152 ≤ s.nextEphemeralPort) ⟨?_, ?_⟩ s hreach
    · rintro _ rfl
      decide
    · rintro s s' h ⟨port, ⟨p, hrun⟩ | ⟨e, hrun⟩ | rfl⟩
      · obtain ⟨-, -, rfl⟩ := hrun.of_ends (bind_ends s port)
        exact advance_cursor h
      · obtain ⟨-, rfl⟩ := hrun.of_ends (bind_ends s port)
        exact advance_cursor h
      · exact h
  constructor
  · intro h
    by_cases hall : ∀ p : U16, 49152 ≤ p → s.sockets p ≠ none
    · exact .inr hall
    · obtain ⟨p, hp⟩ := not_forall.mp hall
      obtain ⟨hlow, hfree⟩ := Classical.not_imp.mp hp
      exact .inl (bind_returns_iff.mp (h.ephemeral.mpr ⟨p, hlow, not_not.mp hfree⟩))
  · intro h
    refine ⟨?_, fun port hport => ?_, ?_, ?_, ?_⟩
    · rw [bind_returns_iff]
      refine ⟨fun hfree => ⟨_, hcursor, hfree⟩, fun ⟨p, hp, hfree⟩ =>
        h.resolve_right fun hall => ?_⟩
      exact hall p hp hfree
    · rw [bind_returns_iff, tried, if_neg hport]
    · exact fun port p s' hrun => (hrun.of_ends (bind_ends s port)).2.1
    · intro port p s' hrun q hq
      rw [(hrun.of_ends (bind_ends s port)).2.2]
      exact Function.update_of_ne hq _ _
    · intro port e s' hrun
      rw [(hrun.of_ends (bind_ends s port)).2, advance_sockets]

/-- The first two ephemeral ports are bound, the second one before the cursor came to it. -/
def twoBound : UdpPorts where
  sockets := Function.update (Function.update (fun _ => none) 49153 (some (.new 49153))) 49152
    (some (.new 49152))
  nextEphemeralPort := 49153

theorem reachable_twoBound : portCalls.Reachable twoBound :=
  .step (.step (.init rfl) ⟨49153, .inl ⟨49153, rfl⟩⟩) ⟨0, .inl ⟨49152, rfl⟩⟩

theorem bindSound_iff_twoBound : BindSound twoBound ↔
    twoBound.sockets 49153 = none ∨ ∀ p : U16, 49152 ≤ p → twoBound.sockets p ≠ none :=
  bindSound_iff reachable_twoBound

/-- `bind` fails, though port 49154 is free. -/
theorem bind_refuses : ¬BindSound twoBound := by
  intro h
  have hret := h.ephemeral.mpr ⟨49154, by decide, by decide⟩
  rw [bind_returns_iff] at hret
  exact absurd hret (by decide)

end PandaOS.Kernel.Net.UdpPorts
