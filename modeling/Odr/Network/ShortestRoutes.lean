/-
# The length of the routes back to the source

A node forwards the first copy of the RREQ that it receives, and a shorter copy that comes
later improves only its own entry.  So after a cold start the hop count of an entry for `s` is
one more than the least hop count of the copies that the neighbours have forwarded.  This is
the length of a walk from `s` that meets `d` at most at its end, but not always of a shortest
one.  It is when every node forwards a copy that has travelled no further than the others in
flight.
-/
import Odr.Network.Discovery

namespace Odr

open Flooding Lab

namespace Network

variable {k : ℕ} {nw : Network k} {s d : Fin k} {lvl : Fin k → ℤ} {σ σ' : Net k}

instance (σ : Net k) (n : Fin k) : Decidable (n ∈ nw.forwarders s σ) :=
  inferInstanceAs (Decidable (1 ≤ ((σ.node n).latestRreq (nw.key s)).toInt))

section Defs

variable (nw : Network k) (s d : Fin k)

/-- The node that forwards the RREQ in a step, and the hop count of the copy that it
forwards. -/
def forwardOf (x : Net k × Label k) : Option (Fin k × ℤ) :=
  match x.2 with
  | .deliver i _ => (x.1.wire[i]?).bind fun f =>
      if f.pack.type = .rreq ∧ f.dst ≠ d ∧ f.dst ∉ nw.forwarders s x.1 then
        some (f.dst, f.pack.rreq.hop)
      else none
  | _ => none

/-- The node `a` has forwarded a copy that had travelled `x` hops; `s` has sent its own. -/
def HasForwarded (tr : List (Net k × Label k)) (a : Fin k) (x : ℤ) : Prop :=
  (a = s ∧ x = 0) ∨ ∃ y ∈ tr, nw.forwardOf s d y = some (a, x)

/-- When a node forwards a copy of the RREQ, no copy in flight has travelled fewer hops. -/
def InOrder (x : Net k × Label k) : Prop :=
  ∀ p ∈ nw.forwardOf s d x, ∀ g ∈ x.1.wire, g.pack.type = .rreq → p.2 ≤ g.pack.rreq.hop

instance (x : Net k × Label k) : Decidable (nw.InOrder s d x) :=
  inferInstanceAs (Decidable (∀ p ∈ nw.forwardOf s d x, _))

/-- The levels of a flood are the hop counts of the copies forwarded. -/
structure Levels (tr : List (Net k × Label k)) (lvl : Fin k → ℤ) (σ : Net k) : Prop where
  forwarded : ∀ a x, nw.HasForwarded s d tr a x ↔ a ∈ nw.forwarders s σ ∧ lvl a = x
  optimal : (∀ y ∈ tr, nw.InOrder s d y) → Optimal nw.graph s d (nw.forwarders s σ) lvl

end Defs

lemma hasForwarded_snoc {tr : List (Net k × Label k)} {y : Net k × Label k} {a : Fin k}
    {x : ℤ} : nw.HasForwarded s d (tr ++ [y]) a x ↔
      nw.HasForwarded s d tr a x ∨ nw.forwardOf s d y = some (a, x) := by
  simp only [HasForwarded, List.mem_append, List.mem_singleton, or_assoc]
  constructor
  · rintro (h | ⟨z, hz | rfl, h⟩)
    · exact Or.inl h
    · exact Or.inr (Or.inl ⟨z, hz, h⟩)
    · exact Or.inr (Or.inr h)
  · rintro (h | ⟨z, hz, h⟩ | h)
    · exact Or.inl h
    · exact Or.inr ⟨z, Or.inl hz, h⟩
    · exact Or.inr ⟨y, Or.inr rfl, h⟩

/-! ## One step of the flood -/

/-- What a delivery forwards is what it adds to the nodes that have forwarded. -/
lemma Grows.forwardOf_iff {f : Transit k} {i : ℕ} {io : UnixIo} {lvl' : Fin k → ℤ}
    (hG : nw.Grows s d f lvl lvl' σ σ') (hf : σ.wire[i]? = some f) {a : Fin k} {x : ℤ} :
    nw.forwardOf s d (σ, .deliver i io) = some (a, x) ↔
      a ∈ nw.forwarders s σ' ∧ a ∉ nw.forwarders s σ ∧ lvl' a = x := by
  simp only [forwardOf, hf, Option.bind_some, Option.ite_none_right_eq_some, Option.some.injEq,
    Prod.mk.injEq]
  constructor
  · rintro ⟨⟨hty, hd, hfw⟩, rfl, rfl⟩
    have hin := hG.all hty hd
    rcases hG.new f.dst hin with hold | ⟨-, -, -, hlvl, -⟩
    · exact absurd hold hfw
    · exact ⟨hin, hfw, hlvl⟩
  · rintro ⟨hin, hfw, rfl⟩
    rcases hG.new a hin with hold | ⟨rfl, -, hty, hlvl, -⟩
    · exact absurd hold hfw
    · exact ⟨⟨hty, ne_of_mem_of_not_mem hin hG.dest, hfw⟩, rfl, hlvl.symm⟩

/-- The copies on their way to a node that has not forwarded have come from its neighbours. -/
lemma Flood.le_of_inOrder (hF : nw.Flood s d lvl σ) {x : ℤ}
    (hx : ∀ g ∈ σ.wire, g.pack.type = .rreq → x ≤ g.pack.rreq.hop) :
    ∀ a ∈ nw.forwarders s σ, ∀ b, b ∉ nw.forwarders s σ → b ≠ d → nw.graph.Adj a b →
      x ≤ lvl a + 1 := by
  intro a ha b hb hbd hadj
  rcases hF.spread a ha b hadj with rfl | ⟨e, he, -⟩ | ⟨t, ht, -, hty, hle⟩
  · exact absurd hF.source hb
  · exact absurd (hF.heard b hbd ⟨e, he⟩) hb
  · exact (hx t ht hty).trans hle

lemma Levels.deliver {tr : List (Net k × Label k)} (hL : nw.Levels s d tr lvl σ)
    (hF : nw.Flood s d lvl σ) {f : Transit k} {i : ℕ} {io : UnixIo} {lvl' : Fin k → ℤ}
    (hf : σ.wire[i]? = some f)
    (hG : nw.Grows s d f lvl lvl' σ σ') :
    nw.Levels s d (tr ++ [(σ, .deliver i io)]) lvl' σ' := by
  refine ⟨fun a x => ?_, fun hord n hn x hx => ?_⟩
  · rw [hasForwarded_snoc, hL.forwarded, hG.forwardOf_iff hf]
    constructor
    · rintro (⟨ha, rfl⟩ | ⟨ha, -, hx⟩)
      · exact ⟨hG.sub ha, hG.agree a ha⟩
      · exact ⟨ha, hx⟩
    · rintro ⟨ha, rfl⟩
      by_cases hold : a ∈ nw.forwarders s σ
      · exact Or.inl ⟨hold, (hG.agree a hold).symm⟩
      · exact Or.inr ⟨ha, hold, rfl⟩
  · have hopt := hL.optimal fun y hy => hord y (List.mem_append_left _ hy)
    by_cases hold : n ∈ nw.forwarders s σ
    · rw [hG.agree n hold]
      exact hopt n hold x hx
    · -- the new node has forwarded a copy than which no other has travelled less
      have hnd : n ≠ d := ne_of_mem_of_not_mem hn hG.dest
      have hfwd : nw.forwardOf s d (σ, .deliver i io) = some (n, lvl' n) :=
        (hG.forwardOf_iff hf).mpr ⟨hn, hold, rfl⟩
      have hle := hF.le_of_inOrder (hord (σ, .deliver i io) (by simp) _ hfwd)
      have hins := hopt.insert hF.source hold hnd hle n (Set.mem_insert _ _) x hx
      rwa [Function.update_self] at hins

/-- A step in which nothing is delivered. -/
lemma Levels.tick {tr : List (Net k × Label k)} (hL : nw.Levels s d tr lvl σ) (x : ℕ) :
    nw.Levels s d (tr ++ [(σ, .tick x)]) lvl { σ with clock := σ.clock + x } := by
  refine ⟨fun a y => ?_, fun hord => ?_⟩
  · rw [hasForwarded_snoc, hL.forwarded]
    simp [forwardOf, forwarders]
  · exact hL.optimal fun y hy => hord y (List.mem_append_left _ hy)

/-- The request: only `s` has sent a copy. -/
lemma levels_of_request {tr : List (Net k × Label k)} {l : Label k}
    (hfw : nw.forwarders s σ' = {s})
    (hnone : ∀ y ∈ tr ++ [(σ, l)], nw.forwardOf s d y = none) :
    nw.Levels s d (tr ++ [(σ, l)]) (fun _ => 0) σ' := by
  refine ⟨fun a x => ?_, fun _ n hn x hx => ?_⟩
  · rw [HasForwarded, hfw, Set.mem_singleton_iff]
    constructor
    · rintro (⟨rfl, rfl⟩ | ⟨y, hy, h⟩)
      · exact ⟨rfl, rfl⟩
      · rw [hnone y hy] at h
        simp at h
    · rintro ⟨rfl, rfl⟩
      exact Or.inl ⟨rfl, rfl⟩
  · obtain ⟨w, -, rfl⟩ := hx
    exact Int.natCast_nonneg _

theorem levels_of_run {nw : NamedNetwork k} (hk : k ≤ 10) (hsd : s ≠ d)
    {tr : List (Net k × Label k)} (hr : nw.system.Run (nw.ColdStep s d) tr σ) :
    σ.Initial ∨ ∃ lvl, nw.Flood s d lvl σ ∧ nw.Levels s d tr lvl σ := by
  have h := cold_induction hk hsd (P := fun tr => ∀ y ∈ tr, nw.forwardOf s d y = none)
    (Q := fun tr lvl σ => nw.Levels s d tr lvl σ) (by simp)
    (fun tr σ x hP y hy => ?_) (fun tr σ σ' client req hP h hs => ?_)
    (fun tr lvl lvl' σ σ' i io f hL _ hF hf _ hG => hL.deliver hF hf hG)
    (fun tr lvl σ x hL => hL.tick x) hr
  · exact h.imp_left And.left
  · rcases List.mem_append.mp hy with hy | hy
    · exact hP y hy
    · rw [List.mem_singleton.mp hy]
      rfl
  · refine levels_of_request (forwarders_of_request h hs) fun y hy => ?_
    rcases List.mem_append.mp hy with hy | hy
    · exact hP y hy
    · rw [List.mem_singleton.mp hy]
      rfl

/-- An entry for `s` comes from a neighbour. -/
lemma Flood.exists_adj (hF : nw.Flood s d lvl σ) (hwf : nw.Wf σ) {n : Fin k} (hn : n ≠ s)
    {e : RtblEntry} (he : findKey (nw.key s) (σ.node n).rtbl = some e) :
    ∃ a ∈ nw.forwarders s σ, nw.graph.Adj a n ∧ e.hop = lvl a + 1 := by
  obtain ⟨a, ha, hown, hhop⟩ := hF.back n e he
  refine ⟨a, ha, ((hwf.route n _ e he).adj hown ?_).symm, hhop⟩
  -- a node does not take its own copy for a shorter way
  rintro rfl
  obtain ⟨e', he', hle⟩ := hF.known n ha hn
  obtain rfl := Option.some_injective _ (he'.symm.trans he)
  omega

/-- **The routes back to the source.** After a cold start, when no RREQ and no RREP is in
flight, the hop count of an entry of `n` for `s` is one more than the least hop count of the
copies that the neighbours of `n` have forwarded.  It is the length of a walk from `s` to `n`
whose inner nodes are not `d`, and of a shortest one if no node forwarded a copy of the RREQ
while one was in flight that had travelled fewer hops. -/
theorem hop_of_flood {nw : NamedNetwork k} (hk : k ≤ 10) (hsd : s ≠ d) {tr : List (Net k × Label k)}
    (hr : nw.system.Run (nw.ColdStep s d) tr σ) (hq : Quiet σ) {n : Fin k} (hn : n ≠ s)
    {e : RtblEntry} (he : findKey (nw.key s) (σ.node n).rtbl = some e) :
    IsLeast {x | ∃ a, nw.graph.Adj a n ∧ nw.HasForwarded s d tr a (x - 1)} e.hop ∧
      e.hop ∈ Lengths nw.graph s d n ∧
      ((∀ y ∈ tr, nw.InOrder s d y) → IsLeast (Lengths nw.graph s d n) e.hop) := by
  have hwf := wf_of_reach hr.reach
  rcases levels_of_run hk hsd hr with h | ⟨lvl, hF, hL⟩
  · rw [(h.node n).rtbl, findKey_nil] at he
    simp at he
  obtain ⟨b, hb, hadj, hhop⟩ := hF.exists_adj hwf hn he
  have hle : ∀ a ∈ nw.forwarders s σ, nw.graph.Adj a n → e.hop ≤ lvl a + 1 := by
    intro a ha hadj
    obtain ⟨e', he', hle⟩ := hF.exists_entry hq ha hadj hn
    obtain rfl := Option.some_injective _ (he'.symm.trans he)
    exact hle
  have hmem : e.hop ∈ Lengths nw.graph s d n := by
    rw [hhop]
    exact hF.supported.mem_lengths hF.dest hb hadj
  refine ⟨⟨⟨b, hadj, ?_⟩, ?_⟩, hmem, fun hord => ⟨hmem, fun x hx => ?_⟩⟩
  · exact (hL.forwarded b _).mpr ⟨hb, by omega⟩
  · rintro x ⟨a, hadj', hfw⟩
    obtain ⟨ha, hlvl⟩ := (hL.forwarded a _).mp hfw
    have h := hle a ha hadj'
    omega
  · obtain ⟨a, ha, hadj', hax⟩ :=
      (hL.optimal hord).exists_adj_le hF.source (hF.closed hq) hn hx
    exact (hle a ha hadj').trans hax

/-- The far end of a line learns the way back. -/
theorem hop_of_flood_line : IsLeast (Lengths line.graph 0 2 2) 2 := by
  have hrun : line.system.Run (line.ColdStep 0 2) (line.system.trace start lineDiscovery)
      (after line lineDiscovery) := run_after (by decide +kernel) (by decide +kernel)
  have he : findKey (line.key 0) ((after line lineDiscovery).node 2).rtbl
      = some ⟨1, ip 0, 3, 4, 2, 0⟩ := by decide +kernel
  exact (hop_of_flood (by decide) (by decide) hrun (by decide +kernel) (by decide) he).2.2
    (by decide +kernel)

/-- On the kite the second corner hears the RREQ last from the source itself: it has by then
forwarded the copy that came round by the third corner. -/
def kiteRace : List (Label 4) :=
  [asks 0 0 3, .deliver 1 (answering []), .deliver 1 (answering []),
    .deliver 2 (answering []), .deliver 0 (answering []), .deliver 0 (answering []),
    .deliver 0 (answering []), .deliver 0 (answering [])]

lemma kite_connected : kite.graph.Connected := by
  have hadj : ∀ n, n ≠ 1 → kite.graph.Adj 1 n := by decide +kernel
  refine (SimpleGraph.connected_iff_exists_forall_reachable _).mpr ⟨1, fun n => ?_⟩
  by_cases hn : n = 1
  · rw [hn]
  · exact (hadj n hn).reachable

/-- The fourth node counts three hops to the source, which is two links away. -/
theorem longer_route :
    kite.graph.Connected ∧ ∃ tr σ e, kite.system.Run (kite.ColdStep 0 3) tr σ ∧ Quiet σ ∧
      findKey (kite.key 0) (σ.node 3).rtbl = some e ∧
      ¬IsLeast (Lengths kite.graph 0 3 3) e.hop := by
  refine ⟨kite_connected, _, after kite kiteRace, ⟨1, ip 0, 7, 8, 3, 0⟩,
    run_after (by decide +kernel) (by decide +kernel), by decide +kernel, by decide +kernel,
    fun h => ?_⟩
  have h₀₁ : kite.graph.Adj 0 1 := by decide +kernel
  have h₁₃ : kite.graph.Adj 1 3 := by decide +kernel
  have hle : (3 : ℤ) ≤ 2 := h.2 ⟨.cons h₀₁ (.cons h₁₃ .nil), by simp, rfl⟩
  omega

end Network

end Odr
