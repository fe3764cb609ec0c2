/-
# A list kept in lockstep with a pool

A ghost is kept for every token of a pool, in a second list whose positions are those of the
pool.  A relation between tokens and their ghosts is `List.Forall₂` of the two lists; the lemmas
say that it survives when a token is taken out and when tokens with one and the same ghost are put
in.
-/
import Mathlib

namespace Lockstep

variable {α γ : Type*} {R : α → γ → Prop} {pool new : List α} {ghosts : List γ} {a : α} {g : γ}
  {i : ℕ}

/-- The ghost of a token. -/
lemma exists_ghost (h : List.Forall₂ R pool ghosts) (ha : pool[i]? = some a) :
    ∃ g, ghosts[i]? = some g ∧ R a g := by
  induction h generalizing i with
  | nil => simp at ha
  | cons hR _ ih =>
    cases i with
    | zero =>
      obtain rfl := Option.some_injective _ ha
      exact ⟨_, rfl, hR⟩
    | succ i => exact ih ha

lemma rel_of_get (h : List.Forall₂ R pool ghosts) (ha : pool[i]? = some a)
    (hg : ghosts[i]? = some g) : R a g := by
  obtain ⟨g', hg', hR⟩ := exists_ghost h ha
  obtain rfl := Option.some_injective _ (hg.symm.trans hg')
  exact hR

lemma eraseIdx (h : List.Forall₂ R pool ghosts) (i : ℕ) :
    List.Forall₂ R (pool.eraseIdx i) (ghosts.eraseIdx i) := by
  induction h generalizing i with
  | nil => simp
  | cons hR h ih =>
    cases i with
    | zero => exact h
    | succ i => exact .cons hR (ih i)

lemma append (h : List.Forall₂ R pool ghosts) (hnew : ∀ a ∈ new, R a g) :
    List.Forall₂ R (pool ++ new) (ghosts ++ new.map fun _ => g) := by
  refine List.rel_append h ?_
  rw [List.forall₂_map_right_iff]
  exact List.forall₂_same.mpr hnew

/-- The tokens put in last have the ghost they were put in with. -/
lemma rel_of_append (hlen : pool.length = ghosts.length)
    (h : List.Forall₂ R (pool ++ new) (ghosts ++ new.map fun _ => g)) : ∀ a ∈ new, R a g := by
  have hnew := List.forall₂_drop_append _ _ _ h
  rw [← hlen, List.drop_left, List.forall₂_map_right_iff] at hnew
  exact List.forall₂_same.mp hnew

end Lockstep
