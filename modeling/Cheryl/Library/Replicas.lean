import Mathlib.Logic.Function.Basic

/-!
# Replicas of one history

Some nodes follow one history, each at its own place in it. A node may be put back to a place where a
snapshot was taken. What a node should be at its place is given by a relation `Fits`, and what a
snapshot should be by a relation `Keeps`. As long as a history that goes on takes nothing from either,
all that is to be shown of a move is that the node that moves fits (`Tracks.move`).
-/

namespace Cheryl.Library

/-- Nodes at their places in the history, and the snapshots there are, with the places they are of. -/
structure Replicas (ι η σ ρ : Type) where
  history : η
  node : ι → σ
  place : ι → Nat
  stored : List (ρ × Nat)

namespace Replicas

variable {ι η σ ρ : Type}

/-! ## What can happen

A step of a system moves one node, with or without the history, or stores a snapshot. That the others stay
where they are is part of `move`, so it is not an obligation of each step. -/

/-- The node `i` gets to another place, and the history may go on. -/
def move [DecidableEq ι] (f : Replicas ι η σ ρ) (i : ι) (h : η) (n : σ) (k : Nat) :
    Replicas ι η σ ρ :=
  { f with
    history := h
    node := Function.update f.node i n
    place := Function.update f.place i k }

def store (f : Replicas ι η σ ρ) (s : ρ) (k : Nat) : Replicas ι η σ ρ :=
  { f with stored := (s, k) :: f.stored }

/-! ## The invariant

`Fits h k n` is what a node at place `k` should be, and `Keeps h k s` what a snapshot of that place should
be. Both speak of the history as it is now, so they must survive its going on. -/

/-- Every node fits its place, and every snapshot keeps what was at its place. -/
structure Tracks (Fits : η → Nat → σ → Prop) (Keeps : η → Nat → ρ → Prop) (f : Replicas ι η σ ρ) :
    Prop where
  node : ∀ i, Fits f.history (f.place i) (f.node i)
  stored : ∀ s k, (s, k) ∈ f.stored → Keeps f.history k s

variable {Fits : η → Nat → σ → Prop} {Keeps : η → Nat → ρ → Prop} {f : Replicas ι η σ ρ} {i j : ι}
  {h : η} {n : σ} {s : ρ} {k : Nat}

/-- The history goes on without any node. -/
theorem Tracks.extend (T : Tracks Fits Keeps f) (hfits : ∀ k n, Fits f.history k n → Fits h k n)
    (hkeeps : ∀ k s, Keeps f.history k s → Keeps h k s) :
    Tracks Fits Keeps { f with history := h } where
  node := fun i => hfits _ _ (T.node i)
  stored := fun s k hmem => hkeeps _ _ (T.stored s k hmem)

/-- A node moves to a place it fits. -/
theorem Tracks.move [DecidableEq ι] (T : Tracks Fits Keeps f)
    (hfits : ∀ k n, Fits f.history k n → Fits h k n)
    (hkeeps : ∀ k s, Keeps f.history k s → Keeps h k s) (hnew : Fits h k n) :
    Tracks Fits Keeps (f.move i h n k) where
  node := by
    intro j
    by_cases hji : j = i
    · subst hji
      simpa [Replicas.move] using hnew
    · simpa [Replicas.move, hji] using hfits _ _ (T.node j)
  stored := fun s k hmem => hkeeps _ _ (T.stored s k hmem)

/-- A node moves along the history as it is. -/
theorem Tracks.move_along [DecidableEq ι] (T : Tracks Fits Keeps f) (hnew : Fits f.history k n) :
    Tracks Fits Keeps (f.move i f.history n k) :=
  T.move (fun _ _ hfits => hfits) (fun _ _ hkeeps => hkeeps) hnew

/-- A snapshot of what there was at its place. -/
theorem Tracks.store (T : Tracks Fits Keeps f) (hnew : Keeps f.history k s) :
    Tracks Fits Keeps (f.store s k) where
  node := T.node
  stored := by
    intro s' k' hmem
    rcases List.mem_cons.mp hmem with heq | hmem
    · cases heq
      exact hnew
    · exact T.stored s' k' hmem

end Replicas

end Cheryl.Library
