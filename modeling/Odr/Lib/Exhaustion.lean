/-
# Exhaustion of a pool of tokens

A pool is a list of tokens, some of which have a rank.  A step takes one token out of the pool
and may put others in.  If a ranked token is only ever replaced by tokens of smaller rank or of
none, and an unranked token by unranked ones, then ranked tokens are taken out finitely often in
every infinite sequence of steps: the multiset of the ranks in the pool decreases in the order
`CutExpand`, which is well founded.

The ranks may also change from step to step, as long as none of them grows
(`transGen_replace`).
-/
import Mathlib

namespace Exhaustion

open Relation (CutExpand)

section Descent

variable {β : Type*} {r : β → β → Prop}

/-- A sequence that stays or descends at every step descends finitely often. -/
theorem eventually_not_descend (hr : WellFounded r) {f : ℕ → β}
    (hstep : ∀ i, f (i + 1) = f i ∨ r (f (i + 1)) (f i)) :
    ∃ N, ∀ i, N ≤ i → ¬r (f (i + 1)) (f i) := by
  obtain ⟨b, ⟨N, rfl⟩, hmin⟩ := hr.has_min (Set.range f) ⟨f 0, 0, rfl⟩
  -- from a minimal value on the sequence is constant
  have hconst : ∀ i, N ≤ i → f i = f N := by
    intro i hi
    induction i, hi using Nat.le_induction with
    | base => rfl
    | succ i _ ih =>
      rcases hstep i with h | h
      · rw [h, ih]
      · rw [ih] at h
        exact absurd h (hmin _ ⟨i + 1, rfl⟩)
  refine ⟨N, fun i hi h => ?_⟩
  rw [hconst i hi] at h
  exact hmin _ ⟨i + 1, rfl⟩ h

end Descent

section Pool

variable {α β : Type*} (rank : α → Option β)

/-- The ranks of the tokens in a pool. -/
def weight (pool : List α) : Multiset β := (pool.filterMap rank : List β)

variable {rank} {pool new : List α} {a : α} {i : ℕ}

lemma weight_append (pool new : List α) :
    weight rank (pool ++ new) = weight rank pool + weight rank new := by
  simp [weight]

lemma weight_of_none (h : ∀ b ∈ new, rank b = none) : weight rank new = 0 := by
  rw [weight, List.filterMap_eq_nil_iff.mpr h]
  rfl

/-- The weight of a pool is that of a token in it and that of the rest. -/
lemma weight_eraseIdx (h : pool[i]? = some a) :
    weight rank pool = weight rank [a] + weight rank (pool.eraseIdx i) := by
  obtain ⟨hi, rfl⟩ := List.getElem?_eq_some_iff.mp h
  have hperm := (List.getElem_cons_eraseIdx_perm hi).filterMap rank
  rw [← weight_append]
  exact (Multiset.coe_eq_coe.mpr hperm).symm

/-- Taking out an unranked token and putting in unranked ones changes nothing. -/
lemma weight_replace_unranked (h : pool[i]? = some a) (ha : rank a = none)
    (hnew : ∀ b ∈ new, rank b = none) :
    weight rank (pool.eraseIdx i ++ new) = weight rank pool := by
  have hone : weight rank [a] = 0 := weight_of_none (by simpa using ha)
  rw [weight_append, weight_of_none hnew, weight_eraseIdx h, hone, add_zero, zero_add]

/-- Replacing a ranked token by tokens of smaller rank lowers the weight. -/
lemma cutExpand_replace {r : β → β → Prop} {x : β} (h : pool[i]? = some a) (ha : rank a = some x)
    (hnew : ∀ b ∈ new, ∀ y, rank b = some y → r y x) :
    CutExpand r (weight rank (pool.eraseIdx i ++ new)) (weight rank pool) := by
  refine ⟨weight rank new, x, fun y hy => ?_, ?_⟩
  · obtain ⟨b, hb, hby⟩ := List.mem_filterMap.mp hy
    exact hnew b hb y hby
  · have hx : weight rank [a] = {x} := by simp [weight, ha]
    rw [weight_append, weight_eraseIdx h, hx, add_right_comm, add_comm (weight rank _)]

lemma cutExpand_weight {r : β → β → Prop} {x : β} (h : ∀ b ∈ new, ∀ y, rank b = some y → r y x) :
    CutExpand r (weight rank new) {x} := by
  refine Relation.cutExpand_singleton fun y hy => ?_
  obtain ⟨b, hb, hby⟩ := List.mem_filterMap.mp hy
  exact h b hb y hby

/-- The rank of a token stays, or falls, or is lost. -/
def Falls (r : β → β → Prop) (rank rank' : α → Option β) (a : α) : Prop :=
  rank' a = rank a ∨ ∃ x, rank a = some x ∧ ∀ y, rank' a = some y → r y x

variable {rank' : α → Option β} {r : β → β → Prop}

/-- When no rank grows, the weight stays or descends. -/
theorem reflTransGen_weight (h : ∀ a ∈ pool, Falls r rank rank' a) :
    Relation.ReflTransGen (CutExpand r) (weight rank' pool) (weight rank pool) := by
  induction pool with
  | nil => exact .refl
  | cons a pool ih =>
    have htail := ih fun b hb => h b (List.mem_cons_of_mem a hb)
    rw [← List.singleton_append, weight_append, weight_append]
    refine (htail.lift (weight rank' [a] + ·)
      fun s t hst => (Relation.cutExpand_add_left _).mpr hst).trans ?_
    rcases h a List.mem_cons_self with heq | ⟨x, hx, hlt⟩
    · have hone : weight rank' [a] = weight rank [a] := by
        rw [weight, weight, List.filterMap_cons, List.filterMap_cons, heq]
        rfl
      rw [hone]
    · have hone : weight rank [a] = {x} := by simp [weight, hx]
      rw [hone]
      exact .single ((Relation.cutExpand_add_right _).mpr (cutExpand_weight (by simpa using hlt)))

/-- **Replacing a ranked token by tokens of smaller rank** lowers the weight, also when the ranks
of the others fall meanwhile. -/
theorem transGen_replace {x : β} (h : pool[i]? = some a) (ha : rank a = some x)
    (hnew : ∀ b ∈ new, ∀ y, rank' b = some y → r y x)
    (hold : ∀ b ∈ pool, Falls r rank rank' b) :
    Relation.TransGen (CutExpand r) (weight rank' (pool.eraseIdx i ++ new)) (weight rank pool) := by
  have hx : weight rank [a] = {x} := by simp [weight, ha]
  have hrest : Relation.ReflTransGen (CutExpand r) (weight rank' (pool.eraseIdx i))
      (weight rank (pool.eraseIdx i)) :=
    reflTransGen_weight fun b hb => hold b (List.mem_of_mem_eraseIdx hb)
  rw [weight_append, weight_eraseIdx h, hx, add_comm _ (weight rank (pool.eraseIdx i))]
  refine .trans_right (hrest.lift (· + weight rank' new)
    fun s t hst => (Relation.cutExpand_add_right _).mpr hst) (.single ?_)
  exact (Relation.cutExpand_add_left _).mpr (cutExpand_weight hnew)

end Pool

end Exhaustion
