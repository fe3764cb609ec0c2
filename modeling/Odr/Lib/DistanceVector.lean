/-
# Distance-vector routing tables

The general theory of next-hop tables whose entries carry a hop count.  There is a set `N`
of nodes, a set `K` of destinations, and each node owns one destination.  A table gives each
node, for each destination, at most one route: a next node and a hop count.

A node is *within* `x` of a destination when it owns it or has a route with fewer than `x`
hops.  Tables *descend* when every route leads to a node that is within the route's own hop
count.  Descent is what keeps the next-hop graph of every destination free of cycles, and it
survives every change that only lowers hop counts and takes new routes from nodes that are
within the hop count recorded.
-/
import Mathlib

namespace DistanceVector

variable {N K : Type*}

/-- A route: the hop count and the next node. -/
structure Route (N : Type*) where
  hop : ℤ
  next : N

/-- The routes of all nodes. -/
abbrev Tables (N K : Type*) := N → K → Option (Route N)

section Defs

variable (own : N → K) (T : Tables N K)

/-- Node `m` owns `k` or has a route to it with fewer than `x` hops. -/
def Within (m : N) (k : K) (x : ℤ) : Prop := own m = k ∨ ∃ r ∈ T m k, r.hop < x

instance [DecidableEq K] (m : N) (k : K) (x : ℤ) : Decidable (Within own T m k x) :=
  inferInstanceAs (Decidable (_ ∨ _))

/-- Every route to a destination that a node does not own leads to a node that is within the
route's hop count. -/
def Descends : Prop :=
  ∀ n k r, own n ≠ k → T n k = some r → Within own T r.next k r.hop

/-- The next-hop graph of a destination: its owner has no next node. -/
def Next (k : K) (n m : N) : Prop := own n ≠ k ∧ ∃ r, T n k = some r ∧ r.next = m

end Defs

/-- `T'` has every route of `T`, with at most as many hops. -/
def Improves (T T' : Tables N K) : Prop :=
  ∀ n k r, T n k = some r → ∃ r', T' n k = some r' ∧ r'.hop ≤ r.hop

variable {own : N → K} {T T' : Tables N K}

lemma Within.of_le {m : N} {k : K} {x y : ℤ} (h : Within own T m k x) (hxy : x ≤ y) :
    Within own T m k y := by
  rcases h with h | ⟨r, hr, hlt⟩
  · exact Or.inl h
  · exact Or.inr ⟨r, hr, by omega⟩

lemma Within.improve {m : N} {k : K} {x : ℤ} (h : Within own T m k x) (hT : Improves T T') :
    Within own T' m k x := by
  rcases h with h | ⟨r, hr, hlt⟩
  · exact Or.inl h
  · obtain ⟨r', hr', hle⟩ := hT m k r hr
    exact Or.inr ⟨r', hr', by omega⟩

/-- **Descent is preserved** by a change that raises no hop count and takes every new route
from a node within the hop count that the route records. -/
theorem Descends.improve (hd : Descends own T) (hT : Improves T T')
    (hnew : ∀ n k r, own n ≠ k → T' n k = some r →
      T n k = some r ∨ Within own T r.next k r.hop) : Descends own T' := by
  intro n k r hn hr
  rcases hnew n k r hn hr with h | h
  · exact (hd n k r hn h).improve hT
  · exact h.improve hT

/-! ## Loop freedom -/

/-- Along the next-hop graph every node reached is within the first node's hop count. -/
lemma Descends.within_of_transGen (hd : Descends own T) {k : K} {n m : N}
    (h : Relation.TransGen (Next own T k) n m) :
    ∃ r, T n k = some r ∧ Within own T m k r.hop := by
  induction h with
  | single h =>
    obtain ⟨hn, r, hr, rfl⟩ := h
    exact ⟨r, hr, hd _ k r hn hr⟩
  | tail _ hstep ih =>
    obtain ⟨r, hr, hw⟩ := ih
    obtain ⟨hb, r', hr', rfl⟩ := hstep
    refine ⟨r, hr, ?_⟩
    rcases hw with hw | ⟨r'', hr'', hlt⟩
    · exact absurd hw hb
    · obtain rfl : r' = r'' := Option.some_injective _ (hr'.symm.trans hr'')
      exact (hd _ k r' hb hr').of_le hlt.le

/-- **Descending tables have no routing loops.** -/
theorem Descends.not_transGen_self (hd : Descends own T) (k : K) (n : N) :
    ¬Relation.TransGen (Next own T k) n n := by
  intro h
  obtain ⟨r, hr, hw⟩ := hd.within_of_transGen h
  obtain ⟨hn, -⟩ : Next own T k n _ := (Relation.TransGen.head'_iff.mp h).choose_spec.1
  rcases hw with hw | ⟨r', hr', hlt⟩
  · exact hn hw
  · rw [hr] at hr'
    cases hr'
    exact lt_irrefl _ hlt

/-- A chain of an acyclic relation visits nothing twice. -/
lemma nodup_of_isChain {R : N → N → Prop} (hR : ∀ n, ¬Relation.TransGen R n n) {l : List N}
    (h : l.IsChain R) : l.Nodup := by
  have htrans : l.IsChain (Relation.TransGen R) := h.imp fun _ _ => Relation.TransGen.single
  refine htrans.pairwise.imp ?_
  rintro a _ hab rfl
  exact hR a hab

/-- On finitely many nodes no walk along an acyclic relation goes on for ever. -/
lemma no_infinite_walk [Finite N] {R : N → N → Prop} (hR : ∀ n, ¬Relation.TransGen R n n)
    (w : ℕ → N) : ¬∀ i, R (w i) (w (i + 1)) := by
  intro hw
  obtain ⟨i, j, hij, heq⟩ := Finite.exists_ne_map_eq_of_infinite w
  have hwalk : ∀ a b, a < b → Relation.TransGen R (w a) (w b) := by
    intro a b hab
    induction b, hab using Nat.le_induction with
    | base => exact .single (hw a)
    | succ b _ ih => exact ih.tail (hw b)
  rcases lt_or_gt_of_ne hij with h | h
  · exact hR (w i) (by simpa [heq] using hwalk i j h)
  · exact hR (w i) (by simpa [heq] using hwalk j i h)

/-- **Following the next nodes reaches the owner**, in at most as many steps as the route
counts hops, when hop counts are positive. -/
theorem Descends.exists_path (hd : Descends own T)
    (hpos : ∀ n k r, T n k = some r → 1 ≤ r.hop) {n : N} {k : K} {r : Route N}
    (hn : own n ≠ k) (hr : T n k = some r) :
    ∃ (l : List N) (d : N), (n :: l).IsChain (Next own T k) ∧ (n :: l).getLast? = some d ∧
      own d = k ∧ (l.length : ℤ) ≤ r.hop := by
  induction hh : r.hop.toNat using Nat.strong_induction_on generalizing n r with
  | _ x ih =>
    have hstep : Next own T k n r.next := ⟨hn, r, hr, rfl⟩
    have hr1 := hpos n k r hr
    by_cases hm : own r.next = k
    · exact ⟨[r.next], r.next, by simpa using hstep, by simp, hm, by simpa using hr1⟩
    · rcases hd n k r hn hr with hw | ⟨r', hr', hlt⟩
      · exact absurd hw hm
      · have hr1' := hpos _ k r' hr'
        obtain ⟨l, d, hchain, hlast, hd', hlen⟩ := ih r'.hop.toNat (by omega) hm hr' rfl
        refine ⟨r.next :: l, d, ?_, ?_, hd', ?_⟩
        · exact List.isChain_cons_cons.mpr ⟨hstep, hchain⟩
        · simpa using hlast
        · simp only [List.length_cons]
          push_cast
          omega

end DistanceVector
