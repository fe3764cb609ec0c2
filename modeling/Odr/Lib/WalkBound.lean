/-
# Bounds on distances

`Near G n d x` says that `x` is an upper bound on the distance from `n` to `d` in a graph: there
is a walk of at most `x` steps.  A protocol that adds one to a bound whenever it passes it on to a
neighbour keeps it a bound.
-/
import Mathlib

namespace WalkBound

variable {V : Type*} {G : SimpleGraph V} {n m d : V} {x y : ℤ}

/-- There is a walk of at most `x` steps. -/
def Near (G : SimpleGraph V) (n d : V) (x : ℤ) : Prop := ∃ w : G.Walk n d, (w.length : ℤ) ≤ x

lemma near_iff : Near G n d x ↔ G.Reachable n d ∧ (G.dist n d : ℤ) ≤ x := by
  constructor
  · rintro ⟨w, hw⟩
    have hdist := SimpleGraph.dist_le w
    exact ⟨⟨w⟩, by omega⟩
  · rintro ⟨hr, hx⟩
    obtain ⟨w, hw⟩ := hr.exists_walk_length_eq_dist
    exact ⟨w, by omega⟩

lemma near_self (hx : 0 ≤ x) : Near G n n x := ⟨.nil, hx⟩

lemma Near.mono (h : Near G n d x) (hxy : x ≤ y) : Near G n d y := by
  obtain ⟨w, hw⟩ := h
  exact ⟨w, hw.trans hxy⟩

/-- A neighbour is one step further away at most. -/
lemma Near.cons (h : Near G m d x) (hnm : G.Adj n m) : Near G n d (x + 1) := by
  obtain ⟨w, hw⟩ := h
  refine ⟨w.cons hnm, ?_⟩
  rw [SimpleGraph.Walk.length_cons]
  push_cast
  omega

end WalkBound
