import Mathlib.Data.Set.Basic

/-!
# Cumulative acknowledgement through a bounded window

A receiver of numbered items keeps a frontier `v` and a window `W` of items it
remembers; `S` is the set of everything it has received.  The frontier moves
from `v` to `w` when the window holds all of `v .. w`.  Frontier `0` says
nothing, not even that item `0` was received.
-/

namespace Frontier

/-- The frontier claims no more than what was received. -/
def Contiguous (S : Set ℕ) (v : ℕ) : Prop := 0 < v → ∀ i ≤ v, i ∈ S

theorem Contiguous.zero (S : Set ℕ) : Contiguous S 0 := fun h => absurd h (by omega)

theorem Contiguous.mono {S T : Set ℕ} {v : ℕ} (h : Contiguous S v) (hST : S ⊆ T) :
    Contiguous T v := fun hv i hi => hST (h hv i hi)

/-- The frontier may move over received items. -/
theorem Contiguous.extend {S : Set ℕ} {v w : ℕ} (h : Contiguous S v)
    (hw : ∀ i, v ≤ i → i ≤ w → i ∈ S) : Contiguous S w := by
  intro _ i hi
  by_cases hvi : v ≤ i
  · exact hw i hvi hi
  · exact h (by omega) i (by omega)

/-- Nothing received at or beyond the frontier has left the window. -/
def Covered (S W : Set ℕ) (v : ℕ) : Prop := ∀ i ∈ S, v ≤ i → i ∈ W

/-- The frontier is where the scan of the window stops. -/
def Stopped (W : Set ℕ) (v : ℕ) : Prop := v ∈ W → v + 1 ∉ W

/-- **Completion.**  With everything below `n` received, a covered frontier
that has stopped has reached the last item. -/
theorem Covered.complete {S W : Set ℕ} {v n : ℕ} (h : Covered S W v) (hstop : Stopped W v)
    (hv : v < n) (hall : ∀ i < n, i ∈ S) : v + 1 = n := by
  by_contra hne
  have h0 : v ∈ W := h v (hall v hv) (Nat.le_refl v)
  have h1 : v + 1 ∈ W := h (v + 1) (hall (v + 1) (by omega)) (by omega)
  exact hstop h0 h1

/-- Receiving `j`, with a window that drops only items below the frontier,
keeps the frontier covered wherever it moves. -/
theorem Covered.step {S W W' : Set ℕ} {v w j : ℕ} (h : Covered S W v) (hvw : v ≤ w)
    (hj : j ∈ W') (hkeep : ∀ i ∈ W, v ≤ i → i ∈ W') : Covered (insert j S) W' w := by
  rintro i (rfl | hi) hw
  · exact hj
  · exact hkeep i (h i hi (by omega)) (by omega)

end Frontier
