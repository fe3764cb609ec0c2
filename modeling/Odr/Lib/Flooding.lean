/-
# Flooding a graph

The general theory of flooding from a source `s` when one node `d` receives but does not
forward.  `F` is the set of nodes that have forwarded, and `lvl n` is the number of links that
the copy had travelled which `n` forwarded.

`Supported` says that every level is the length of a path of forwarders; it bounds the levels
and survives the growth of `F` by a neighbour.  `Optimal` says that no walk is shorter; it
survives when the new node takes the least level on offer.  `Lengths` is the set of lengths in
which a flood can reach a node at all: those of the walks that meet `d` at most at their end.
-/
import Mathlib

namespace Flooding

variable {V : Type*} (G : SimpleGraph V) (s d : V)

/-- The lengths of the walks from `s` to `n` that meet `d` at most at their end. -/
def Lengths (n : V) : Set ℤ :=
  {x | ∃ w : G.Walk s n, d ∉ w.support.dropLast ∧ (w.length : ℤ) = x}

/-- Every level is the length of a path of forwarders. -/
def Supported (F : Set V) (lvl : V → ℤ) : Prop :=
  ∀ n ∈ F, ∃ w : G.Walk s n, w.IsPath ∧ (∀ v ∈ w.support, v ∈ F) ∧ (w.length : ℤ) = lvl n

/-- No walk to a forwarder is shorter than its level. -/
def Optimal (F : Set V) (lvl : V → ℤ) : Prop := ∀ n ∈ F, ∀ x ∈ Lengths G s d n, lvl n ≤ x

variable {G s d} {F : Set V} {lvl : V → ℤ}

/-- The source has the level zero. -/
lemma supported_singleton (h : lvl s = 0) : Supported G s {s} lvl := by
  rintro n rfl
  exact ⟨.nil, by simp, by simp, by simp [h]⟩

lemma Supported.nonneg (h : Supported G s F lvl) {n : V} (hn : n ∈ F) : 0 ≤ lvl n := by
  obtain ⟨w, -, -, hlen⟩ := h n hn
  omega

/-- The copy that a forwarder passes on has travelled a length in which a flood can reach its
neighbour. -/
lemma Supported.mem_lengths (h : Supported G s F lvl) (hd : d ∉ F) {m n : V} (hm : m ∈ F)
    (hmn : G.Adj m n) : lvl m + 1 ∈ Lengths G s d n := by
  obtain ⟨w, -, hF, hlen⟩ := h m hm
  refine ⟨w.concat hmn, ?_, ?_⟩
  · rw [SimpleGraph.Walk.support_concat, List.dropLast_concat]
    exact fun hw => hd (hF d hw)
  · rw [SimpleGraph.Walk.length_concat, ← hlen]
    push_cast
    rfl

/-- Levels are bounded by the number of nodes, of which the one that does not forward is not
on the path. -/
lemma Supported.add_two_le_card [Fintype V] (h : Supported G s F lvl) (hd : d ∉ F) {n : V}
    (hn : n ∈ F) : lvl n + 2 ≤ Fintype.card V := by
  obtain ⟨w, hp, hF, hlen⟩ := h n hn
  have hnodup : (d :: w.support).Nodup :=
    List.nodup_cons.mpr ⟨fun hw => hd (hF d hw), hp.support_nodup⟩
  have hcard := hnodup.length_le_card
  rw [List.length_cons, SimpleGraph.Walk.length_support] at hcard
  omega

/-- **A neighbour of a forwarder becomes a forwarder** with the next level. -/
theorem Supported.insert [DecidableEq V] (h : Supported G s F lvl) {m n : V} (hm : m ∈ F)
    (hn : n ∉ F)
    (hmn : G.Adj m n) : Supported G s (insert n F) (Function.update lvl n (lvl m + 1)) := by
  intro v hv
  rcases Set.mem_insert_iff.mp hv with rfl | hv
  · obtain ⟨w, hp, hF, hlen⟩ := h m hm
    refine ⟨w.concat hmn, hp.concat (fun hw => hn (hF v hw)) hmn, fun u hu => ?_, ?_⟩
    · rw [SimpleGraph.Walk.support_concat, List.mem_append] at hu
      rcases hu with hu | hu
      · exact Set.mem_insert_of_mem v (hF u hu)
      · rw [List.mem_singleton.mp hu]
        exact Set.mem_insert v F
    · rw [SimpleGraph.Walk.length_concat, Function.update_self, ← hlen]
      push_cast
      rfl
  · obtain ⟨w, hp, hF, hlen⟩ := h v hv
    refine ⟨w, hp, fun u hu => Set.mem_insert_of_mem n (hF u hu), ?_⟩
    rw [Function.update_of_ne (ne_of_mem_of_not_mem hv hn), hlen]

/-- While every copy on its way to a new node has travelled at least `x` links, no walk to a
node that has not forwarded is shorter than `x`. -/
lemma Optimal.le_length (h : Optimal G s d F lvl) (hs : s ∈ F) {x : ℤ}
    (hx : ∀ a ∈ F, ∀ b, b ∉ F → b ≠ d → G.Adj a b → x ≤ lvl a + 1) {n : V} (w : G.Walk s n)
    (hw : d ∉ w.support) : n ∈ F ∨ x ≤ w.length := by
  induction w using SimpleGraph.Walk.concatRec with
  | Hnil => exact Or.inl hs
  | @Hconcat s a b p hab ih =>
    rw [SimpleGraph.Walk.support_concat, List.mem_append, not_or] at hw
    rw [SimpleGraph.Walk.length_concat]
    rcases ih h hs hw.1 with ha | hle
    · by_cases hb : b ∈ F
      · exact Or.inl hb
      · have hbd : b ≠ d := fun heq => hw.2 (by simp [heq])
        have hle := hx a ha b hb hbd hab
        have hopt := h a ha p.length ⟨p, fun hp => hw.1 (List.mem_of_mem_dropLast hp), rfl⟩
        right
        push_cast
        omega
    · right
      push_cast
      omega

/-- **Levels stay optimal** when the new node takes the least level on offer. -/
theorem Optimal.insert [DecidableEq V] (h : Optimal G s d F lvl) (hs : s ∈ F) {n : V} (hn : n ∉ F)
    (hnd : n ≠ d) {x : ℤ} (hx : ∀ a ∈ F, ∀ b, b ∉ F → b ≠ d → G.Adj a b → x ≤ lvl a + 1) :
    Optimal G s d (insert n F) (Function.update lvl n x) := by
  intro v hv
  rcases Set.mem_insert_iff.mp hv with rfl | hv
  · rintro y ⟨w, hw, rfl⟩
    rw [Function.update_self]
    have hsupp : d ∉ w.support := by
      rw [← List.dropLast_append_getLast w.support_ne_nil, List.mem_append, not_or,
        SimpleGraph.Walk.getLast_support, List.mem_singleton]
      exact ⟨hw, hnd.symm⟩
    exact (h.le_length hs hx w hsupp).resolve_left hn
  · rw [Function.update_of_ne (ne_of_mem_of_not_mem hv hn)]
    exact h v hv

/-! ## A flood that has ended -/

/-- When all neighbours of forwarders have forwarded, but for `d`, every walk from the source
that meets `d` at most at its end leads to a forwarder or to `d`. -/
lemma mem_of_closed (hs : s ∈ F) (hF : ∀ a ∈ F, ∀ b, G.Adj a b → b ∈ F ∨ b = d) {n : V}
    (w : G.Walk s n) (hw : d ∉ w.support.dropLast) : n ∈ F ∨ n = d := by
  induction w using SimpleGraph.Walk.concatRec with
  | Hnil => exact Or.inl hs
  | @Hconcat s a b p hab ih =>
    rw [SimpleGraph.Walk.support_concat, List.dropLast_concat] at hw
    rcases ih hs (fun hp => hw (List.mem_of_mem_dropLast hp)) with ha | rfl
    · exact hF a ha b hab
    · exact absurd p.end_mem_support hw

/-- The last step of a walk to another node. -/
lemma exists_adj_of_mem_lengths {n : V} (hn : n ≠ s) {x : ℤ} (hx : x ∈ Lengths G s d n) :
    ∃ a, a ≠ d ∧ G.Adj a n ∧ x - 1 ∈ Lengths G s d a := by
  obtain ⟨w, hw, rfl⟩ := hx
  induction w using SimpleGraph.Walk.concatRec with
  | Hnil => exact absurd rfl hn
  | @Hconcat s a b p hab ih =>
    rw [SimpleGraph.Walk.support_concat, List.dropLast_concat] at hw
    refine ⟨a, fun heq => hw (heq ▸ p.end_mem_support), hab, p,
      fun hp => hw (List.mem_of_mem_dropLast hp), ?_⟩
    rw [SimpleGraph.Walk.length_concat]
    push_cast
    omega

/-- **The copies that a node has received after an optimal flood** include one that has
travelled no further than any walk. -/
theorem Optimal.exists_adj_le (h : Optimal G s d F lvl) (hs : s ∈ F)
    (hF : ∀ a ∈ F, ∀ b, G.Adj a b → b ∈ F ∨ b = d) {n : V} (hn : n ≠ s) {x : ℤ}
    (hx : x ∈ Lengths G s d n) : ∃ a ∈ F, G.Adj a n ∧ lvl a + 1 ≤ x := by
  obtain ⟨a, had, han, ha⟩ := exists_adj_of_mem_lengths hn hx
  obtain ⟨w, hw, hlen⟩ := ha
  have haF := (mem_of_closed hs hF w hw).resolve_right had
  have hle := h a haF (x - 1) ⟨w, hw, hlen⟩
  exact ⟨a, haF, han, by omega⟩

/-- In a connected graph the flood reaches the node that does not forward. -/
lemma exists_adj_of_connected (hG : G.Connected) (hs : s ∈ F) (hd : d ∉ F)
    (hF : ∀ a ∈ F, ∀ b, G.Adj a b → b ∈ F ∨ b = d) : ∃ a ∈ F, G.Adj a d := by
  obtain ⟨w⟩ := hG.preconnected s d
  obtain ⟨e, -, he₁, he₂⟩ := w.exists_boundary_dart F hs hd
  rcases hF e.fst he₁ e.snd e.adj with h | h
  · exact absurd h he₂
  · exact ⟨e.fst, he₁, h ▸ e.adj⟩

end Flooding
