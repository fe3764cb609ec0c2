/-
# Cold-start discovery

One request in a connected network of at most ten nodes whose daemons have just started, when
nothing is lost and nothing grows stale: in whatever order the RREQ and RREP packets arrive,
once the last of them has been read there are routes both ways, and `s` has sent its DATA packet
once.
-/
import Odr.Network.ColdStartStep

namespace Odr

open Flooding Lab

namespace Network

variable {k : ℕ} {nw : Network k} {s d : Fin k} {lvl : Fin k → ℤ} {σ σ' : Net k}

lemma ColdStep.fresh {l : Label k} (h : nw.ColdStep s d σ l) : nw.FreshStep σ l := by
  cases l with
  | deliver i io => exact h
  | request n client req => trivial
  | lose i => trivial
  | tick x => trivial

/-! ## The request -/

/-- The one request of a cold start floods. -/
lemma sent_of_initial (h : σ.Initial) (n : Fin k) (client : UnAddr) (req : OdrReq) :
    (nw.request σ n client req).sent =
      bcastFrames (nw.ifs n) (rreqPack nw.rs (nw.host n) (σ.node n) req) (-1) := by
  have hskip : skipDiscovery nw.rs (σ.node n) req = false := by
    simp [skipDiscovery, (h.node n).rtbl, entryExistsForSrc]
  rw [request, mainRequest_sent, hskip]
  rfl

lemma nextBroadcastNo_of_initial (h : σ.Initial) (n : Fin k) :
    nextBroadcastNo (σ.node n).runningBroadcastNo = 2 := by
  rw [(h.node n).runningBroadcastNo]
  decide

/-- The source marks its own RREQ, with the next broadcast number. -/
lemma forwarders_of_request (h : σ.Initial) {client : UnAddr} {req : OdrReq}
    (hs : nw.Steps σ (.request s client req) σ') : nw.forwarders s σ' = {s} := by
  ext n
  rw [mem_forwarders, Set.mem_singleton_iff]
  by_cases hn : n = s
  · have hlatest : (σ'.node s).latestRreq = Function.update (σ.node s).latestRreq (nw.key s)
        (Int8.ofInt (nextBroadcastNo (σ.node s).runningBroadcastNo)) := by
      rw [hs.node_request]
      rfl
    rw [hn, hlatest, Function.update_self, nextBroadcastNo_of_initial h]
    simp
  · rw [hs.node_request_ne hn, (h.node n).latestRreq]
    simp [hn]

/-- A request changes no routing table. -/
lemma findKey_of_request (h : σ.Initial) {client : UnAddr} {req : OdrReq}
    (hs : nw.Steps σ (.request s client req) σ') (n : Fin k) (key : ℤ) :
    findKey key (σ'.node n).rtbl = none := by
  by_cases hn : n = s
  · rw [hn, hs.node_request]
    change findKey key (σ.node s).rtbl = none
    rw [(h.node s).rtbl, findKey_nil]
  · rw [hs.node_request_ne hn, (h.node n).rtbl, findKey_nil]

/-- After the request of a cold start the copies of its RREQ are in flight, and nothing else. -/
lemma mem_wire_of_request (h : σ.Initial) {client : UnAddr} {req : OdrReq}
    (hs : nw.Steps σ (.request s client req) σ') (t : Transit k) :
    t ∈ σ'.wire ↔ t ∈ nw.transmit (s, client)
      (bcastFrames (nw.ifs s) (rreqPack nw.rs (nw.host s) (σ.node s) req) (-1)) := by
  rw [← sent_of_initial h s client req]
  cases hs with
  | request _ _ _ => simp [h.wire]

/-- **The request of a cold start establishes the invariant.** -/
theorem flood_of_request (hsd : s ≠ d) (h : σ.Initial) {client : UnAddr} {req : OdrReq}
    (hok : nw.ColdStep s d σ (.request s client req))
    (hs : nw.Steps σ (.request s client req) σ') : nw.Flood s d (fun _ => 0) σ' := by
  obtain ⟨-, -, hforce, hdest⟩ := hok
  have hnode := fun n (hn : n ≠ s) => hs.node_request_ne hn
  have hsrc := hs.node_request
  have hnone := findKey_of_request h hs
  have hforward := forwarders_of_request h hs
  have hwire := mem_wire_of_request h hs
  have hbid : (rreqPack nw.rs (nw.host s) (σ.node s) req).rreq.broadcastId = 1 :=
    (h.node s).runningBroadcastNo
  -- the RREQ is on its way to every neighbour of `s`, with one hop
  have hspread : ∀ m, ∀ a ∈ nw.ifs s, ∀ b ∈ nw.ifs m, nw.link b.sllAddr = nw.link a.sllAddr →
      nw.Reached s σ' m 1 := by
    intro m a ha b hb hl
    have hpos := nw.ifindex_pos s a ha
    exact reached_of_bcast (q := rreqPack nw.rs (nw.host s) (σ.node s) req) rfl
      (fun t ht => (hwire t).mpr ht) (Or.inl rfl) ha (by omega) hb hl
  -- the tables are empty, so the clauses about entries have nothing to show
  exact {
    taken := by
      have hrb : (σ'.node s).runningBroadcastNo = 2 := by
        rw [hsrc]
        exact nextBroadcastNo_of_initial h s
      rw [hrb]
      decide
    forced := by
      intro n
      by_cases hn : n = s
      · rw [hn, hsrc]
        exact hforce
      · rw [hnode n hn]
        exact (h.node n).forcedDiscovery
    source := by rw [hforward]; rfl
    dest := by
      rw [hforward]
      exact Ne.symm hsd
    supported := by
      rw [hforward]
      exact supported_singleton rfl
    pack := by
      intro t ht
      obtain ⟨hpack, -⟩ := exists_of_mem_transmit_bcastFrames ((hwire t).mp ht)
      rw [hpack]
      exact ⟨rfl, hdest, fun n => by simp [rreqPack]⟩
    rreq := by
      intro t ht hty
      obtain ⟨hpack, a, ha, -, hhw⟩ := exists_of_mem_transmit_bcastFrames ((hwire t).mp ht)
      rw [hpack, hhw, hforward]
      exact ⟨⟨hbid, rfl, rfl⟩, s, rfl, ⟨a, ha, rfl⟩, rfl⟩
    rrep := by
      intro t ht hty
      obtain ⟨hpack, -⟩ := exists_of_mem_transmit_bcastFrames ((hwire t).mp ht)
      rw [hpack] at hty
      simp [rreqPack] at hty
    back := by
      intro n e he
      rw [Option.mem_def, hnone] at he
      simp at he
    heard := by
      rintro n - ⟨e, he⟩
      rw [hnone] at he
      simp at he
    known := by
      intro n hn hns
      rw [hforward] at hn
      exact absurd hn hns
    forth := by
      rintro n ⟨e, he⟩
      rw [hnone] at he
      simp at he
    spread := by
      intro a ha n hadj
      rw [hforward] at ha
      obtain rfl : a = s := ha
      obtain ⟨-, x, hx, y, hy, hl⟩ := hadj
      exact hspread n x hx y hy hl.symm
    copies := by
      intro t ht hty n b hb hl
      obtain ⟨hpack, a, ha, -, hhw⟩ := exists_of_mem_transmit_bcastFrames ((hwire t).mp ht)
      rw [hhw] at hl
      rw [hpack]
      exact hspread n a ha b hb hl
    reply := by
      rintro ⟨e, he⟩
      rw [hnone] at he
      simp at he
    arrived := by
      intro hrd
      rw [hsrc] at hrd
      exact absurd rfl hrd }

/-! ## The run -/

lemma Flood.tick (hF : nw.Flood s d lvl σ) (x : ℕ) :
    nw.Flood s d lvl { σ with clock := σ.clock + x } := { hF with }

/-- **Induction over a cold start.** A property `P` of the history before the request and a
property `Q` of the history, the levels and the state after it. -/
theorem cold_induction {nw : NamedNetwork k} (hk : k ≤ 10) (hsd : s ≠ d)
    {P : List (Net k × Label k) → Prop} {Q : List (Net k × Label k) → (Fin k → ℤ) → Net k → Prop}
    (hnil : P [])
    (hidle : ∀ (tr : List (Net k × Label k)) (σ : Net k) (x : ℕ), P tr →
      P (tr ++ [(σ, Label.tick x)]))
    (hrequest : ∀ (tr : List (Net k × Label k)) (σ σ' : Net k) (client : UnAddr) (req : OdrReq),
      P tr → σ.Initial → nw.Steps σ (.request s client req) σ' →
      Q (tr ++ [(σ, Label.request s client req)]) (fun _ => 0) σ')
    (hdeliver : ∀ (tr : List (Net k × Label k)) lvl lvl' (σ σ' : Net k) i io f,
      Q tr lvl σ → nw.Wf σ → nw.Flood s d lvl σ → σ.wire[i]? = some f →
      nw.Steps σ (.deliver i io) σ' → nw.Grows s d f lvl lvl' σ σ' →
      Q (tr ++ [(σ, Label.deliver i io)]) lvl' σ')
    (htick : ∀ (tr : List (Net k × Label k)) lvl (σ : Net k) (x : ℕ), Q tr lvl σ →
      Q (tr ++ [(σ, Label.tick x)]) lvl { σ with clock := σ.clock + x })
    {tr : List (Net k × Label k)} (hr : nw.system.Run (nw.ColdStep s d) tr σ) :
    (σ.Initial ∧ P tr) ∨ ∃ lvl, nw.Flood s d lvl σ ∧ Q tr lvl σ := by
  refine hr.invariant (I := fun tr σ => (σ.Initial ∧ P tr) ∨
    ∃ lvl, nw.Flood s d lvl σ ∧ Q tr lvl σ) (fun σ h => Or.inl ⟨h, hnil⟩) ?_
  intro tr σ l σ' hr hI hok hs
  have hs := steps_of_step hs
  have hwf := wf_of_reach hr.reach
  rcases hI with ⟨h, hP⟩ | ⟨lvl, hF, hQ⟩
  -- before the request nothing is in flight
  · cases l with
    | request n client req =>
      obtain rfl : n = s := hok.1
      exact Or.inr ⟨_, flood_of_request hsd h hok hs, hrequest tr σ σ' client req hP h hs⟩
    | deliver i io =>
      cases hs with
      | deliver _ _ f hf =>
        rw [h.wire] at hf
        simp at hf
    | lose i => exact absurd hok id
    | tick x =>
      cases hs with
      | tick _ => exact Or.inl ⟨⟨h.node, h.wire⟩, hidle tr σ x hP⟩
  · right
    cases l with
    -- the broadcast number of `s` shows that the one request has been taken
    | request n client req => exact absurd (hok.2.1 s) hF.taken
    | deliver i io =>
      have hs' := hs
      cases hs with
      | deliver _ _ f hf =>
        obtain ⟨lvl', hG, hF'⟩ := hF.deliver hk hsd hwf hf (hok f hf) hs'
        exact ⟨lvl', hF', hdeliver tr lvl lvl' σ _ i io f hQ hwf hF hf hs' hG⟩
    | lose i => exact absurd hok id
    | tick x =>
      cases hs with
      | tick _ => exact ⟨lvl, hF.tick x, htick tr lvl σ x hQ⟩

/-- In a flood the DATA packets of `s` are counted by its `route_discovered`. -/
def Counts (nw : Network k) (s d : Fin k) (tr : List (Net k × Label k)) (σ : Net k) : Prop :=
  nw.served s tr = if (σ.node s).routeDiscovered = 0 then [] else [nw.addr d]

lemma counts_of_request {tr : List (Net k × Label k)} (h : σ.Initial) {client : UnAddr}
    {req : OdrReq} (hs : nw.Steps σ (.request s client req) σ') :
    nw.Counts s d (tr ++ [(σ, .request s client req)]) σ' := by
  have hrd : (σ'.node s).routeDiscovered = 0 := by
    rw [hs.node_request]
    rfl
  have horig : nw.originated s (σ, .request s client req) = [] := by
    simp only [originated, if_true]
    refine dataDests_eq_nil fun g hg => ?_
    rw [sent_of_initial h] at hg
    rw [pack_of_mem_bcastFrames hg]
    simp [rreqPack]
  rw [Counts, served_snoc, horig, hrd]
  simp [requestAt]

lemma Flood.counts_deliver {nw : NamedNetwork k} (hF : nw.Flood s d lvl σ) (hwf : nw.Wf σ)
    (hifs : (nw.ifs s).Nodup) {tr : List (Net k × Label k)} {i : ℕ} {io : UnixIo}
    (hs : nw.Steps σ (.deliver i io) σ') (hc : nw.Counts s d tr σ) :
    nw.Counts s d (tr ++ [(σ, .deliver i io)]) σ' := by
  rw [Counts] at hc ⊢
  rw [served_snoc]
  cases historyStep hwf hs s with
  | none hreq hout horig hrd hno =>
    rw [hreq, horig, hc, hrd]
    simp
  | asked r hreq hreqc hout horig hno => exact absurd rfl (hno i io)
  | cached r e hreq hreqc hout hpos horig hno => exact absurd rfl (hno i io)
  | arrival i io f e hx hf hn ha hreq hout hpos horig hrd =>
    have hzero : (σ.node s).routeDiscovered = 0 := hn ▸ ha.2.2.2
    have hdest := (hF.pack f (mem_wire_of_getElem hf)).2.1
    have hone := listings_eq_one hifs (linked_of_routeOut hwf hout)
    rw [hreq, horig, hc, hzero, hrd, hdest, hone]
    simp

theorem counts_of_run {nw : NamedNetwork k} (hk : k ≤ 10) (hsd : s ≠ d) (hifs : (nw.ifs s).Nodup)
    {tr : List (Net k × Label k)} (hr : nw.system.Run (nw.ColdStep s d) tr σ)
    (hreq : nw.latestRequest tr s ≠ none) :
    ∃ lvl, nw.Flood s d lvl σ ∧ nw.Counts s d tr σ := by
  have h := cold_induction hk hsd (P := fun tr => nw.latestRequest tr s = none)
    (Q := fun tr _ σ => nw.Counts s d tr σ) rfl
    (fun tr σ x hP => by
      rw [latestRequest, Transition.System.lastOf_snoc, ← latestRequest, hP]
      rfl)
    (fun tr σ σ' client req _ h hs => counts_of_request h hs)
    (fun tr lvl lvl' σ σ' i io f hc hwf hF _ hs _ => hF.counts_deliver hwf hifs hs hc)
    (fun tr lvl σ x hc => by
      rw [Counts] at hc ⊢
      simpa [served_snoc, requestAt, originated] using hc) hr
  exact h.resolve_left fun h => hreq h.2

/-! ## When all is quiet -/

/-- No RREQ and no RREP is in flight. -/
def Quiet (σ : Net k) : Prop := ∀ f ∈ σ.wire, f.pack.type ≠ .rreq ∧ f.pack.type ≠ .rrep

instance (σ : Net k) : Decidable (Quiet σ) :=
  inferInstanceAs (Decidable (∀ f ∈ σ.wire, _))

/-- When no RREQ is in flight the neighbours of nodes that have forwarded have entries. -/
lemma Flood.exists_entry (hF : nw.Flood s d lvl σ) (hq : Quiet σ) {a n : Fin k}
    (ha : a ∈ nw.forwarders s σ) (hadj : nw.graph.Adj a n) (hn : n ≠ s) :
    ∃ e ∈ findKey (nw.key s) (σ.node n).rtbl, e.hop ≤ lvl a + 1 := by
  rcases hF.spread a ha n hadj with h | h | ⟨t, ht, -, hty, -⟩
  · exact absurd h hn
  · exact h
  · exact absurd hty (hq t ht).1

/-- Then all of them have forwarded themselves, but for `d`. -/
lemma Flood.closed (hF : nw.Flood s d lvl σ) (hq : Quiet σ) :
    ∀ a ∈ nw.forwarders s σ, ∀ b, nw.graph.Adj a b → b ∈ nw.forwarders s σ ∨ b = d := by
  intro a ha b hadj
  by_cases hbs : b = s
  · exact Or.inl (hbs ▸ hF.source)
  by_cases hbd : b = d
  · exact Or.inr hbd
  · obtain ⟨e, he, -⟩ := hF.exists_entry hq ha hadj hbs
    exact Or.inl (hF.heard b hbd ⟨e, he⟩)

lemma Flood.exists_back (hF : nw.Flood s d lvl σ) {n : Fin k} (hn : n ∈ nw.forwarders s σ)
    (hns : n ≠ s) : ∃ e, findKey (nw.key s) (σ.node n).rtbl = some e := by
  obtain ⟨e, he, -⟩ := hF.known n hn hns
  exact ⟨e, he⟩

/-- The nodes of a chain of next hops have entries, all but the last. -/
lemma exists_findKey_of_mem_chain {l : List (Fin k)}
    (hchain : l.IsChain (DistanceVector.Next nw.key (nw.tables σ) (nw.key d)))
    (hlast : l.getLast? = some d) {n : Fin k} (hn : n ∈ l) (hnd : n ≠ d) :
    ∃ e, findKey (nw.key d) (σ.node n).rtbl = some e := by
  induction l with
  | nil => simp at hn
  | cons a l ih =>
    cases l with
    | nil =>
      obtain rfl : a = d := by simpa using hlast
      exact absurd (by simpa using hn) hnd
    | cons b l =>
      rw [List.isChain_cons_cons] at hchain
      rcases List.mem_cons.mp hn with rfl | hn
      · obtain ⟨e, he, -⟩ := (next_iff.mp hchain.1).2
        exact ⟨e, he⟩
      · exact ih hchain.2 (by simpa using hlast) hn

/-- **Cold-start discovery succeeds in every delivery order.** In a connected network of at
most ten nodes, after one request at `s`, which lists each of its interfaces once, for `d`, in
every reachable state in which no RREQ and no RREP is in flight, `s` and `d` have entries for each
other, `s` has sent exactly one DATA packet, following the next hops leads from `s` to `d` and from
`d` to `s`, and every inner node of the walk from `s` to `d` has entries for both. -/
theorem discovery_succeeds {nw : NamedNetwork k} (hk : k ≤ 10) (hconn : nw.graph.Connected)
    (hsd : s ≠ d) (hifs : (nw.ifs s).Nodup) {tr : List (Net k × Label k)}
    (hr : nw.system.Run (nw.ColdStep s d) tr σ) (hreq : nw.latestRequest tr s ≠ none)
    (hq : Quiet σ) :
    (∃ e, findKey (nw.key d) (σ.node s).rtbl = some e) ∧ nw.served s tr = [nw.addr d] ∧
    (∃ e, findKey (nw.key s) (σ.node d).rtbl = some e) ∧
    (∃ l, (s :: l).IsChain (nw.NextHop σ (nw.key d)) ∧ (s :: l).getLast? = some d ∧
      ∀ n ∈ l, n ≠ d → n ≠ s ∧ (∃ e, findKey (nw.key s) (σ.node n).rtbl = some e) ∧
        ∃ e, findKey (nw.key d) (σ.node n).rtbl = some e) ∧
    ∃ l, (d :: l).IsChain (nw.NextHop σ (nw.key s)) ∧ (d :: l).getLast? = some s := by
  obtain ⟨lvl, hF, hserved⟩ := counts_of_run hk hsd hifs hr hreq
  have hσ : nw.system.Reach nw.FreshStep σ := hr.reach.mono fun _ _ => ColdStep.fresh
  -- the flood has reached `d`, whose answer has arrived
  obtain ⟨a, ha, had⟩ := exists_adj_of_connected hconn hF.source hF.dest (hF.closed hq)
  obtain ⟨eback, hback, -⟩ := hF.exists_entry hq ha had (Ne.symm hsd)
  have hrd : (σ.node s).routeDiscovered ≠ 0 := by
    rcases hF.reply ⟨eback, hback⟩ with ⟨t, ht, hty⟩ | h
    · exact absurd hty (hq t ht).2
    · exact h
  obtain ⟨eforth, hforth⟩ := hF.arrived hrd
  obtain ⟨l, hchain, hlast, hnodup, -⟩ := exists_nextHops hσ (Ne.symm hsd) hforth
  obtain ⟨l', hchain', hlast', -, -⟩ := exists_nextHops hσ hsd hback
  refine ⟨⟨eforth, hforth⟩, hserved.trans (if_neg hrd), ⟨eback, hback⟩, ⟨l, ?_, hlast, ?_⟩,
    l', ?_, hlast'⟩
  · exact hchain.imp fun a b hab => (next_iff.mp hab).2
  · intro n hn hnd
    have hns : n ≠ s := ne_of_mem_of_not_mem hn (List.nodup_cons.mp hnodup).1
    -- an inner node has a next hop for `d`
    obtain ⟨e, he⟩ := exists_findKey_of_mem_chain hchain hlast (List.mem_cons_of_mem s hn) hnd
    exact ⟨hns, hF.exists_back (hF.forth n ⟨e, he⟩) hns, e, he⟩
  · exact hchain'.imp fun a b hab => (next_iff.mp hab).2

/-- The first of three nodes in a row asks for the last. -/
def lineDiscovery : List (Label 3) :=
  [asks 0 0 2, .deliver 0 (answering []), .deliver 0 (answering []),
    .deliver 0 (answering []), .deliver 0 (answering [])]

lemma line_connected : line.graph.Connected := by
  have h₀₁ : line.graph.Adj 0 1 := by decide +kernel
  have h₁₂ : line.graph.Adj 1 2 := by decide +kernel
  refine SimpleGraph.connected_iff_exists_forall_reachable _ |>.mpr ⟨1, fun n => ?_⟩
  fin_cases n
  · exact h₀₁.symm.reachable
  · exact .rfl
  · exact h₁₂.reachable

theorem discovery_succeeds_line :
    line.served 0 (line.system.trace start lineDiscovery) = [ip 2] ∧
      ∃ l, (0 :: l).IsChain (line.NextHop (after line lineDiscovery) (line.key 2)) ∧
        (0 :: l).getLast? = some 2 := by
  have hrun : line.system.Run (line.ColdStep 0 2) (line.system.trace start lineDiscovery)
      (after line lineDiscovery) := run_after (by decide +kernel) (by decide +kernel)
  have hreq : (line.latestRequest (line.system.trace start lineDiscovery) 0).isSome := by
    decide +kernel
  obtain ⟨-, hserved, -, ⟨l, hchain, hlast, -⟩, -⟩ := discovery_succeeds (by decide)
    line_connected (by decide) (by decide +kernel) hrun (Option.isSome_iff_ne_none.mp hreq)
    (by decide +kernel)
  exact ⟨hserved, l, hchain, hlast⟩

end Network

end Odr
