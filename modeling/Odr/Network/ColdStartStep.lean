/-
# The invariant of a cold start is preserved

A delivery turns at most one node into one that has forwarded.  `Grows` says so, together with
what the new node's level is; each clause of the invariant is then carried over by itself, and
`Flood.deliver` puts them together.  `flood_of_request` is the beginning: the client's request.
-/
import Odr.Network.ColdStart

namespace Odr

open Flooding

namespace Network

variable {k : ℕ} {nw : Network k} {s d : Fin k} {lvl lvl' : Fin k → ℤ} {σ σ' : Net k}
  {f : Transit k} {i : ℕ} {io : UnixIo}

/-- What a delivery does to the nodes that have forwarded and to their levels. -/
structure Grows (nw : Network k) (s d : Fin k) (f : Transit k) (lvl lvl' : Fin k → ℤ)
    (σ σ' : Net k) : Prop where
  sub : nw.forwarders s σ ⊆ nw.forwarders s σ'
  agree : ∀ n ∈ nw.forwarders s σ, lvl' n = lvl n
  /-- A new one is the receiver of an RREQ, which it sends on. -/
  new : ∀ n ∈ nw.forwarders s σ', n ∈ nw.forwarders s σ ∨
    (n = f.dst ∧ n ∉ nw.forwarders s σ ∧ f.pack.type = .rreq ∧ lvl' n = f.pack.rreq.hop ∧
      ∀ t ∈ nw.transmit f.cause (bcastFrames (nw.ifs f.dst) f.pack.reflood f.ifindex),
        t ∈ σ'.wire)
  /-- Nodes that receive an RREQ have forwarded it, all but `d`. -/
  all : f.pack.type = .rreq → f.dst ≠ d → f.dst ∈ nw.forwarders s σ'
  dest : d ∉ nw.forwarders s σ'
  supported : Supported nw.graph s (nw.forwarders s σ') lvl'

/-! ## Being reached -/

/-- The node with the broadcasting interface and everybody on the links it sends to is
reached. -/
lemma reached_of_bcast {n m : Fin k} {q : OdrPack} {recvIf : ℤ} {cause : Fin k × UnAddr}
    (hty : q.type = .rreq)
    (hsub : ∀ t ∈ nw.transmit cause (bcastFrames (nw.ifs n) q recvIf), t ∈ σ'.wire)
    (hself : nw.Reached s σ' n q.rreq.hop) {a b : IfInfo} (ha : a ∈ nw.ifs n)
    (hr : recvIf ≠ a.sllIfindex) (hb : b ∈ nw.ifs m)
    (hl : nw.link b.sllAddr = nw.link a.sllAddr) : nw.Reached s σ' m q.rreq.hop := by
  by_cases heq : b.sllAddr = a.sllAddr
  · obtain ⟨rfl, -⟩ := nw.hw_unique m n b hb a ha heq
    exact hself
  · obtain ⟨t, ht, hdst, hpack⟩ := exists_mem_transmit_bcastFrames ha hb hl heq hr q cause
    exact Or.inr (Or.inr ⟨t, hsub t ht, hdst, by rw [hpack, hty], by rw [hpack]⟩)

lemma Reached.mono {n : Fin k} {x y : ℤ} (h : nw.Reached s σ n x) (hxy : x ≤ y) :
    nw.Reached s σ n y := by
  rcases h with h | ⟨e, he, hle⟩ | ⟨t, ht, hdst, hty, hle⟩
  · exact Or.inl h
  · exact Or.inr (Or.inl ⟨e, he, hle.trans hxy⟩)
  · exact Or.inr (Or.inr ⟨t, ht, hdst, hty, hle.trans hxy⟩)

/-- A packet that the receiver sends along one of its entries is on the wire. -/
lemma exists_sent (hwf : nw.Wf σ) (hf : σ.wire[i]? = some f)
    (hs : nw.Steps σ (.deliver i io) σ') {key : ℤ} {e : RtblEntry}
    (he : findKey key (σ'.node f.dst).rtbl = some e) {q : OdrPack}
    (hsent : (nw.receive σ f io).sent = llFrames (nw.ifs f.dst) q e.nextHopHwaddr e.ifNo) :
    ∃ t ∈ σ'.wire, t.pack = q := by
  have hl := (hwf.step hs).route f.dst _ e he
  obtain ⟨a, ha⟩ := hl.exists_owns
  obtain ⟨t, ht, -, hq⟩ := hl.exists_mem_transmit ha q f.cause
  exact ⟨t, hs.mem_wire_of_sent hf (hsent ▸ ht), hq⟩

section Deliver

variable {nw : NamedNetwork k} (hF : nw.Flood s d lvl σ) (hk : k ≤ 10) (hsd : s ≠ d) (hwf : nw.Wf σ)
  (hf : σ.wire[i]? = some f) (hfr : nw.FreshFor σ f) (hs : nw.Steps σ (.deliver i io) σ')
include hF hk hf hfr hs

lemma Flood.rtbl_deliver : (σ'.node f.dst).rtbl = (nw.learned σ f).rtbl := by
  have hmax := hF.withinMaxh hk (mem_wire_of_getElem hf) hfr.1
  rw [hs.node_dst hf, rtbl_receive, if_pos hmax]

/-- The receiver of an RREQ has an entry with at most the hops offered. -/
lemma Flood.exists_of_rreq_deliver (hty : f.pack.type = .rreq) :
    ∃ e ∈ findKey (nw.key s) (σ'.node f.dst).rtbl, e.hop ≤ f.pack.rreq.hop := by
  rw [hF.rtbl_deliver hk hf hfr hs]
  exact hF.exists_of_rreq (mem_wire_of_getElem hf) hfr hty

/-- What has been reached stays reached. -/
lemma Flood.reached_deliver {n : Fin k} {x : ℤ} (h : nw.Reached s σ n x) :
    nw.Reached s σ' n x := by
  rcases h with h | ⟨e, he, hle⟩ | ⟨t, ht, rfl, hty, hle⟩
  · exact Or.inl h
  · obtain ⟨e', he', hle'⟩ := exists_findKey_of_steps hs he
    exact Or.inr (Or.inl ⟨e', he', hle'.trans hle⟩)
  · rcases hs.eq_or_mem_wire hf ht with rfl | ht'
    · obtain ⟨e, he, hle'⟩ := hF.exists_of_rreq_deliver hk hf hfr hs hty
      exact Or.inr (Or.inl ⟨e, he, hle'.trans hle⟩)
    · exact Or.inr (Or.inr ⟨t, ht', rfl, hty, hle⟩)

include hwf in
/-- The neighbours of the receiver of an RREQ are reached when it sends the RREQ on: those on
the link it came from by the copies that went there with it. -/
lemma Flood.reached_of_forward (hty : f.pack.type = .rreq)
    (hsent : ∀ t ∈ nw.transmit f.cause (bcastFrames (nw.ifs f.dst) f.pack.reflood f.ifindex),
      t ∈ σ'.wire) {n : Fin k} {a b : IfInfo} (ha : a ∈ nw.ifs f.dst) (hb : b ∈ nw.ifs n)
    (hl : nw.link b.sllAddr = nw.link a.sllAddr) :
    nw.Reached s σ' n (f.pack.rreq.hop + 1) := by
  have hmem := mem_wire_of_getElem hf
  by_cases hr : f.ifindex = a.sllIfindex
  · obtain ⟨m, x, hx, y, hy, hxhw, hyidx, hlink, -⟩ := hwf.wire f hmem
    obtain rfl := nw.ifindex_unique f.dst y hy a ha (hyidx.trans hr)
    have hold := hF.copies f hmem hty n b hb (hl.trans (hlink.symm.trans (congrArg _ hxhw)))
    exact (hF.reached_deliver hk hf hfr hs hold).mono (by omega)
  · obtain ⟨e, he, hle⟩ := hF.exists_of_rreq_deliver hk hf hfr hs hty
    have hself : nw.Reached s σ' f.dst f.pack.reflood.rreq.hop :=
      Or.inr (Or.inl ⟨e, he, hle.trans (by simp [OdrPack.reflood])⟩)
    have hflood : f.pack.reflood.type = .rreq := hty
    exact reached_of_bcast hflood hsent hself ha hr hb hl

include hsd

/-- The receiver's state and what it sends. -/
lemma Flood.discovers_deliver :
    nw.Discovers s d σ f (σ'.node f.dst) (nw.receive σ f io).sent := by
  rw [hs.node_dst hf]
  exact hF.discovers hk hsd (mem_wire_of_getElem hf) hfr io

/-- An entry for `s` is old or leads to the sender of the RREQ. -/
lemma Flood.back_cases {n : Fin k} {e' : RtblEntry}
    (he' : findKey (nw.key s) (σ'.node n).rtbl = some e') :
    (∃ e ip, findKey (nw.key s) (σ.node n).rtbl = some e ∧ e' = e.withIp ip) ∨
      (n = f.dst ∧ f.pack.type = .rreq ∧ e'.nextHopHwaddr = f.hwSrc ∧
        e'.hop = f.pack.rreq.hop) := by
  by_cases hn : n = f.dst
  · subst hn
    rw [hF.rtbl_deliver hk hf hfr hs] at he'
    rcases hF.learned_back hsd (mem_wire_of_getElem hf) hfr he' with h | h
    · exact Or.inl h
    · exact Or.inr ⟨rfl, h⟩
  · rw [hs.node_ne hf hn] at he'
    exact Or.inl ⟨e', e'.destCanIpStr, he', rfl⟩

omit hk hsd hfr in
lemma Flood.pack_deliver (t : Transit k) (ht : t ∈ σ'.wire) :
    t.pack.srcCanIpStr = nw.addr s ∧ t.pack.destCanIpStr = nw.addr d ∧
      ∀ n, t.pack.type ≠ .other n := by
  cases hs.wire ht with
  | old h => exact hF.pack t h
  | request n client req hl h => simp at hl
  | deliver i' io' f' hl hf' h =>
    cases hl
    obtain rfl := Option.some_injective _ (hf.symm.trans hf')
    obtain ⟨hsrc, hdst, -⟩ := hF.pack f (mem_wire_of_getElem hf)
    obtain ⟨g, hg, hpack⟩ := exists_frame_of_mem_transmit h
    have hl := (nw.receive_handled σ f io).leaves hg
    rw [hpack]
    exact ⟨hl.src.trans hsrc, hl.dest.trans hdst, hl.type_ne_other⟩

/-- A new copy of the RREQ is one that the receiver sends on. -/
lemma Flood.rreq_cases {t : Transit k} (ht : t ∈ σ'.wire) (hty : t.pack.type = .rreq) :
    t ∈ σ.wire ∨ (f.pack.type = .rreq ∧ f.dst ≠ d ∧ f.dst ∉ nw.forwarders s σ ∧
      t ∈ nw.transmit f.cause (bcastFrames (nw.ifs f.dst) f.pack.reflood f.ifindex)) := by
  cases hs.wire ht with
  | old h => exact Or.inl h
  | request n client req hl h => simp at hl
  | deliver i' io' f' hl hf' h =>
    cases hl
    obtain rfl := Option.some_injective _ (hf.symm.trans hf')
    obtain ⟨g, hg, hpack⟩ := exists_frame_of_mem_transmit h
    rw [hpack] at hty
    have hD := hF.discovers_deliver hk hsd hf hfr hs
    generalize (nw.receive σ f io).sent = fr at hg h hD
    generalize σ'.node f.dst = s' at hD
    cases hD with
    | forward hty' hd hfw => exact Or.inr ⟨hty', hd, hfw, h⟩
    | answer hty' hd e he =>
      rw [pack_of_mem_llFrames hg] at hty
      simp [OdrPack.destReply] at hty
    | arrive hty' hs' hrd =>
      rw [pack_of_mem_payloadFrames hg] at hty
      simp [OdrPack.request] at hty
    | relay hty' hs' e he =>
      rw [pack_of_mem_llFrames hg] at hty
      simp [OdrPack.relayReply, hty'] at hty
    | again hty' hd hfw => simp at hg
    | late hty' hs' hrd => simp at hg

lemma Flood.arrived_deliver (hrd : (σ'.node s).routeDiscovered ≠ 0) :
    ∃ e, findKey (nw.key d) (σ'.node s).rtbl = some e := by
  have hkeep : (∃ e, findKey (nw.key d) (σ.node s).rtbl = some e) →
      ∃ e, findKey (nw.key d) (σ'.node s).rtbl = some e := by
    rintro ⟨e, he⟩
    obtain ⟨e', he', -⟩ := exists_findKey_of_steps hs he
    exact ⟨e', he'⟩
  by_cases hsf : s = f.dst
  · have hrtbl := hF.rtbl_deliver hk hf hfr hs
    rw [← hsf] at hrtbl
    by_cases hold : (σ.node s).routeDiscovered = 0
    · -- the flag was set by the RREP just read
      have hD := hF.discovers_deliver hk hsd hf hfr hs
      rw [hrtbl]
      rw [← hsf] at hD
      generalize (nw.receive σ f io).sent = fr at hD
      generalize σ'.node s = s' at hD hrd
      cases hD with
      | arrive hty hs' hrd' => exact hF.exists_of_rrep (mem_wire_of_getElem hf) hty
      | answer hty hd e he => exact absurd (hsf.trans hd) hsd
      | again hty hd hfw =>
        rw [learned, Node.learn, ← hsf] at hrd
        exact absurd hold hrd
      | forward hty hd hfw => exact absurd (hsf ▸ hF.source) hfw
      | late hty hs' hrd' => exact absurd hold hrd'
      | relay hty hs' e he => exact absurd hsf.symm hs'
    · exact hkeep (hF.arrived hold)
  · rw [hs.node_ne hf hsf] at hrd
    exact hkeep (hF.arrived hrd)

include hwf

/-- **A delivery turns at most the receiver of an RREQ into a node that has forwarded.** -/
theorem Flood.exists_grows : ∃ lvl', nw.Grows s d f lvl lvl' σ σ' := by
  have hmem := mem_wire_of_getElem hf
  have hne : ∀ n, n ≠ f.dst → (n ∈ nw.forwarders s σ' ↔ n ∈ nw.forwarders s σ) := by
    intro n hn
    rw [mem_forwarders, mem_forwarders, hs.node_ne hf hn]
  have hD := hF.discovers_deliver hk hsd hf hfr hs
  have hsent : ∀ t ∈ nw.transmit f.cause (nw.receive σ f io).sent, t ∈ σ'.wire :=
    fun t ht => hs.mem_wire_of_sent hf ht
  -- unless the receiver marks the RREQ, nothing changes
  have hsame : (σ'.node f.dst).latestRreq = (σ.node f.dst).latestRreq →
      (f.pack.type = .rreq → f.dst ≠ d → f.dst ∈ nw.forwarders s σ) →
      ∃ lvl', nw.Grows s d f lvl lvl' σ σ' := by
    intro hlatest hall
    have heq : nw.forwarders s σ' = nw.forwarders s σ := by
      ext n
      by_cases hn : n = f.dst
      · rw [hn, mem_forwarders, mem_forwarders, hlatest]
      · exact hne n hn
    refine ⟨lvl, heq.ge, fun _ _ => rfl, fun n hn => Or.inl (heq ▸ hn), fun hty hd => ?_, ?_, ?_⟩
    · rw [heq]
      exact hall hty hd
    · rw [heq]
      exact hF.dest
    · rw [heq]
      exact hF.supported
  revert hD hsent hsame
  generalize hnode : σ'.node f.dst = s', (nw.receive σ f io).sent = fr
  intro hD hsent hsame
  cases hD with
  | answer hty hd e he => exact hsame rfl fun _ h => absurd hd h
  | again hty hd hfw => exact hsame rfl fun _ _ => hfw
  | arrive hty hs' hrd => exact hsame rfl fun h => by simp [hty] at h
  | late hty hs' hrd => exact hsame rfl fun h => by simp [hty] at h
  | relay hty hs' e he => exact hsame rfl fun h => by simp [hty] at h
  | forward hty hd hfw =>
    -- the receiver comes one level after the node whose copy it forwards
    obtain ⟨-, a, ha, hown, hhop⟩ := hF.rreq f hmem hty
    have heq : nw.forwarders s σ' = insert f.dst (nw.forwarders s σ) := by
      ext n
      rw [Set.mem_insert_iff]
      by_cases hn : n = f.dst
      · rw [hn, mem_forwarders, hnode]
        simp [Node.mark]
      · rw [hne n hn]
        simp [hn]
    have hadj : nw.graph.Adj a f.dst :=
      ((hwf.wire f hmem).adj hown (ne_of_mem_of_not_mem ha hfw).symm).symm
    refine ⟨Function.update lvl f.dst (lvl a + 1), ?_, fun n hn => ?_, fun n hn => ?_,
      fun _ _ => ?_, ?_, ?_⟩
    · rw [heq]
      exact Set.subset_insert _ _
    · rw [Function.update_of_ne (ne_of_mem_of_not_mem hn hfw)]
    · rw [heq] at hn
      rcases Set.mem_insert_iff.mp hn with rfl | hn
      · exact Or.inr ⟨rfl, hfw, hty, by rw [Function.update_self, hhop], hsent⟩
      · exact Or.inl hn
    · rw [heq]
      exact Set.mem_insert _ _
    · rw [heq, Set.mem_insert_iff, not_or]
      exact ⟨Ne.symm hd, hF.dest⟩
    · rw [heq]
      exact hF.supported.insert ha hfw hadj

end Deliver

/-! ## The clauses of the invariant, one by one -/

section Clauses

variable {nw : NamedNetwork k} (hF : nw.Flood s d lvl σ) (hk : k ≤ 10) (hsd : s ≠ d) (hwf : nw.Wf σ)
  (hf : σ.wire[i]? = some f) (hfr : nw.FreshFor σ f) (hs : nw.Steps σ (.deliver i io) σ')
  (hG : nw.Grows s d f lvl lvl' σ σ')
include hF hk hf hfr hs hG

lemma Flood.known_deliver {n : Fin k} (hn : n ∈ nw.forwarders s σ') (hns : n ≠ s) :
    ∃ e ∈ findKey (nw.key s) (σ'.node n).rtbl, e.hop ≤ lvl' n := by
  rcases hG.new n hn with hold | ⟨rfl, -, hty, hlvl, -⟩
  · obtain ⟨e, he, hle⟩ := hF.known n hold hns
    obtain ⟨e', he', hle'⟩ := exists_findKey_of_steps hs he
    exact ⟨e', he', (hle'.trans hle).trans (hG.agree n hold).ge⟩
  · obtain ⟨e, he, hle⟩ := hF.exists_of_rreq_deliver hk hf hfr hs hty
    exact ⟨e, he, hle.trans hlvl.ge⟩

include hsd

lemma Flood.back_deliver (n : Fin k) (e : RtblEntry)
    (he : findKey (nw.key s) (σ'.node n).rtbl = some e) :
    ∃ a ∈ nw.forwarders s σ', nw.Owns a e.nextHopHwaddr ∧ e.hop = lvl' a + 1 := by
  rcases hF.back_cases hk hsd hf hfr hs he with ⟨e₀, ip, he₀, rfl⟩ | ⟨-, hty, hnext, hhop⟩
  · obtain ⟨a, ha, hown, hhop⟩ := hF.back n e₀ he₀
    exact ⟨a, hG.sub ha, hown, by rw [hG.agree a ha]; exact hhop⟩
  · obtain ⟨-, a, ha, hown, hhop'⟩ := hF.rreq f (mem_wire_of_getElem hf) hty
    refine ⟨a, hG.sub ha, ?_, ?_⟩
    · rw [hnext]
      exact hown
    · rw [hG.agree a ha, hhop, hhop']

lemma Flood.heard_deliver (n : Fin k) (hn : n ≠ d)
    (he : ∃ e, findKey (nw.key s) (σ'.node n).rtbl = some e) : n ∈ nw.forwarders s σ' := by
  obtain ⟨e, he⟩ := he
  rcases hF.back_cases hk hsd hf hfr hs he with ⟨e₀, -, he₀, -⟩ | ⟨rfl, hty, -, -⟩
  · exact hG.sub (hF.heard n hn ⟨e₀, he₀⟩)
  · exact hG.all hty hn

lemma Flood.forth_deliver (n : Fin k)
    (he : ∃ e, findKey (nw.key d) (σ'.node n).rtbl = some e) : n ∈ nw.forwarders s σ' := by
  obtain ⟨e, he⟩ := he
  have hmem := mem_wire_of_getElem hf
  by_cases hn : n = f.dst
  · subst hn
    rw [hF.rtbl_deliver hk hf hfr hs] at he
    rcases hF.learned_forth hsd hmem hfr he with hold | hrep
    · exact hG.sub (hF.forth f.dst hold)
    · exact hG.sub (hF.rrep f hmem hrep).1
  · rw [hs.node_ne hf hn] at he
    exact hG.sub (hF.forth n ⟨e, he⟩)

/-- A packet that a node sends along its entry for `s` comes to a node that has forwarded and
is nearer to `s`. -/
lemma Flood.next_deliver {n : Fin k} {e : RtblEntry}
    (he : findKey (nw.key s) (σ'.node n).rtbl = some e) {ifs : List IfInfo} {q : OdrPack}
    {cause : Fin k × UnAddr} {t : Transit k}
    (ht : t ∈ nw.transmit cause (llFrames ifs q e.nextHopHwaddr e.ifNo)) :
    t.dst ∈ nw.forwarders s σ' ∧ 1 ≤ e.hop ∧ e.hop ≤ 9 ∧ t.pack = q ∧
      (t.dst ≠ s → ∃ e' ∈ findKey (nw.key s) (σ'.node t.dst).rtbl, e'.hop + 1 ≤ e.hop) := by
  obtain ⟨a, ha, hown, hhop⟩ := hF.back_deliver hk hsd hf hfr hs hG n e he
  obtain rfl : t.dst = a := (owns_of_mem_transmit_llFrames hown ht).unique hown
  obtain ⟨g, hg, hpack⟩ := exists_frame_of_mem_transmit ht
  have h0 := hG.supported.nonneg ha
  have h8 := hG.supported.add_two_le_card hG.dest ha
  rw [Fintype.card_fin] at h8
  refine ⟨ha, by omega, by omega, hpack.trans (pack_of_mem_llFrames hg), fun hne => ?_⟩
  obtain ⟨e', he', hle⟩ := hF.known_deliver hk hf hfr hs hG ha hne
  exact ⟨e', he', by omega⟩

lemma Flood.rreq_deliver (t : Transit k) (ht : t ∈ σ'.wire) (hty : t.pack.type = .rreq) :
    (t.pack.rreq.broadcastId = 1 ∧ t.pack.rreq.rrepSent = 0 ∧ t.pack.rrep.hop = -1) ∧
      ∃ a ∈ nw.forwarders s σ', nw.Owns a t.hwSrc ∧ t.pack.rreq.hop = lvl' a + 1 := by
  rcases hF.rreq_cases hk hsd hf hfr hs ht hty with h | ⟨hty', hd, hfw, h⟩
  · obtain ⟨hform, a, ha, hown, hhop⟩ := hF.rreq t h hty
    exact ⟨hform, a, hG.sub ha, hown, by rw [hG.agree a ha]; exact hhop⟩
  · obtain ⟨hpack, b, hb, -, hsrc⟩ := exists_of_mem_transmit_bcastFrames h
    obtain ⟨⟨hid, hsent, hrep⟩, -⟩ := hF.rreq f (mem_wire_of_getElem hf) hty'
    have hin := hG.all hty' hd
    rcases hG.new f.dst hin with hold | ⟨-, -, -, hlvl, -⟩
    · exact absurd hold hfw
    · rw [hpack, hsrc]
      refine ⟨⟨hid, hsent, hrep⟩, f.dst, hin, ⟨b, hb, rfl⟩, ?_⟩
      rw [hlvl]
      rfl

/-- A new RREP is the answer of `d`, or one that is passed on. -/
lemma Flood.rrep_deliver (t : Transit k) (ht : t ∈ σ'.wire) (hty : t.pack.type = .rrep) :
    t.dst ∈ nw.forwarders s σ' ∧ t.pack.rreq.hop ≤ 9 ∧ t.pack.rrep.hop ≤ 9 ∧
      (t.dst ≠ s → ∃ e ∈ findKey (nw.key s) (σ'.node t.dst).rtbl, t.pack.rrep.hop + e.hop ≤ 9) := by
  have hmem := mem_wire_of_getElem hf
  cases hs.wire ht with
  | old h =>
    obtain ⟨hfw, h₁, h₂, hleft⟩ := hF.rrep t h hty
    refine ⟨hG.sub hfw, h₁, h₂, fun hne => ?_⟩
    obtain ⟨e, he, hle⟩ := hleft hne
    obtain ⟨e', he', hle'⟩ := exists_findKey_of_steps hs he
    exact ⟨e', he', by omega⟩
  | request n client req hl h => simp at hl
  | deliver i' io' f' hl hf' h =>
    cases hl
    obtain rfl := Option.some_injective _ (hf.symm.trans hf')
    obtain ⟨g, hg, hpack⟩ := exists_frame_of_mem_transmit h
    have hrtbl := hF.rtbl_deliver hk hf hfr hs
    have hD := hF.discovers_deliver hk hsd hf hfr hs
    rw [hpack] at hty
    generalize (nw.receive σ f io).sent = fr at hg h hD
    generalize σ'.node f.dst = s' at hD
    cases hD with
    | answer hty' hd e he =>
      -- the answer starts with one hop and follows an entry of at most nine
      rw [← hrtbl] at he
      obtain ⟨hfw, h1, h9, hq, hnear⟩ := hF.next_deliver hk hsd hf hfr hs hG he h
      have hhop := hF.rreq_hop_le hk hmem hty'
      rw [hq]
      refine ⟨hfw, hhop, by simp [OdrPack.destReply], fun hne => ?_⟩
      obtain ⟨e', he', hle⟩ := hnear hne
      exact ⟨e', he', by simp only [OdrPack.destReply]; omega⟩
    | relay hty' hs' e he =>
      obtain ⟨-, hrreq, -, hleft⟩ := hF.rrep f hmem hty'
      -- each relay adds a hop and leaves one hop less to go
      obtain ⟨e₀, he₀, hle₀⟩ := hleft hs'
      obtain ⟨e₁, he₁, hle₁⟩ := exists_findKey_learned f he₀
      obtain rfl := Option.some_injective _ (he₁.symm.trans he)
      rw [← hrtbl] at he
      obtain ⟨hfw, h1, h9, hq, hnear⟩ := hF.next_deliver hk hsd hf hfr hs hG he h
      rw [hq]
      refine ⟨hfw, hrreq, by simp only [OdrPack.relayReply]; omega, fun hne => ?_⟩
      obtain ⟨e', he', hle⟩ := hnear hne
      exact ⟨e', he', by simp only [OdrPack.relayReply]; omega⟩
    | forward hty' hd hfw =>
      rw [pack_of_mem_bcastFrames hg] at hty
      simp [OdrPack.reflood, hty'] at hty
    | arrive hty' hs' hrd =>
      rw [pack_of_mem_payloadFrames hg] at hty
      simp [OdrPack.request] at hty
    | again hty' hd hfw => simp at hg
    | late hty' hs' hrd => simp at hg

include hwf

omit hsd in
lemma Flood.spread_deliver (a : Fin k) (ha : a ∈ nw.forwarders s σ') (n : Fin k)
    (hadj : nw.graph.Adj a n) : nw.Reached s σ' n (lvl' a + 1) := by
  rcases hG.new a ha with hold | ⟨rfl, -, hty, hlvl, hsent⟩
  · rw [hG.agree a hold]
    exact hF.reached_deliver hk hf hfr hs (hF.spread a hold n hadj)
  · obtain ⟨-, x, hx, y, hy, hl⟩ := hadj
    rw [hlvl]
    exact hF.reached_of_forward hk hwf hf hfr hs hty hsent hx hy hl.symm

lemma Flood.copies_deliver (t : Transit k) (ht : t ∈ σ'.wire) (hty : t.pack.type = .rreq)
    (n : Fin k) (b : IfInfo) (hb : b ∈ nw.ifs n)
    (hl : nw.link b.sllAddr = nw.link t.hwSrc) : nw.Reached s σ' n t.pack.rreq.hop := by
  rcases hF.rreq_cases hk hsd hf hfr hs ht hty with h | ⟨hty', hd, hfw, h⟩
  · exact hF.reached_deliver hk hf hfr hs (hF.copies t h hty n b hb hl)
  · obtain ⟨hpack, a, ha, -, hsrc⟩ := exists_of_mem_transmit_bcastFrames h
    rcases hG.new f.dst (hG.all hty' hd) with hold | ⟨-, -, -, -, hsent⟩
    · exact absurd hold hfw
    · rw [hsrc] at hl
      rw [hpack]
      exact hF.reached_of_forward hk hwf hf hfr hs hty' hsent ha hb hl

lemma Flood.reply_deliver (he : ∃ e, findKey (nw.key s) (σ'.node d).rtbl = some e) :
    (∃ t ∈ σ'.wire, t.pack.type = .rrep) ∨ (σ'.node s).routeDiscovered ≠ 0 := by
  have hmem := mem_wire_of_getElem hf
  have hrtbl := hF.rtbl_deliver hk hf hfr hs
  have hD := hF.discovers_deliver hk hsd hf hfr hs
  -- an answer that was on its way still is, unless it has just been read
  have hold : (σ'.node d).rtbl = (σ.node d).rtbl →
      ((σ.node s).routeDiscovered ≠ 0 → (σ'.node s).routeDiscovered ≠ 0) →
      f.pack.type ≠ .rrep →
      (∃ t ∈ σ'.wire, t.pack.type = .rrep) ∨ (σ'.node s).routeDiscovered ≠ 0 := by
    intro hsame hrd hty
    rw [hsame] at he
    rcases hF.reply he with ⟨t, ht, hrep⟩ | h
    · rcases hs.eq_or_mem_wire hf ht with rfl | ht'
      · exact absurd hrep hty
      · exact Or.inl ⟨t, ht', hrep⟩
    · exact Or.inr (hrd h)
  generalize hnode : σ'.node f.dst = s', hfr' : (nw.receive σ f io).sent = fr at hD
  cases hD with
  | answer hty hd e he' =>
    obtain ⟨t, ht, hq⟩ := exists_sent hwf hf hs (hrtbl ▸ he') hfr'
    exact Or.inl ⟨t, ht, by rw [hq]; rfl⟩
  | relay hty hs' e he' =>
    obtain ⟨t, ht, hq⟩ := exists_sent hwf hf hs (hrtbl ▸ he') hfr'
    exact Or.inl ⟨t, ht, by rw [hq]; exact hty⟩
  | arrive hty hs' hrd =>
    rw [hs'] at hnode
    exact Or.inr (by rw [hnode]; exact one_ne_zero)
  | late hty hs' hrd =>
    have hrd' : (nw.learned σ f).routeDiscovered = (σ.node s).routeDiscovered := by rw [← hs']; rfl
    rw [hs'] at hnode
    exact Or.inr (by rw [hnode, hrd']; exact hrd)
  | again hty hd hfw =>
    refine hold (by rw [hs.node_ne hf (Ne.symm hd)]) (fun h => ?_) (by simp [hty])
    by_cases hsf : s = f.dst
    · rw [hsf, hnode]
      rw [hsf] at h
      exact h
    · rw [hs.node_ne hf hsf]
      exact h
  | forward hty hd hfw =>
    refine hold (by rw [hs.node_ne hf (Ne.symm hd)]) (fun h => ?_) (by simp [hty])
    rw [hs.node_ne hf fun hsf => hfw (hsf ▸ hF.source)]
    exact h

end Clauses

section Assembly

variable {nw : NamedNetwork k} (hF : nw.Flood s d lvl σ) (hk : k ≤ 10) (hsd : s ≠ d) (hwf : nw.Wf σ)
  (hf : σ.wire[i]? = some f) (hfr : nw.FreshFor σ f) (hs : nw.Steps σ (.deliver i io) σ')
include hF hk hsd hwf hf hfr hs

/-- **The invariant of a cold start is preserved** by the delivery of a packet that meets no
stale entry. -/
theorem Flood.deliver : ∃ lvl', nw.Grows s d f lvl lvl' σ σ' ∧ nw.Flood s d lvl' σ' := by
  obtain ⟨lvl', hG⟩ := hF.exists_grows hk hsd hwf hf hfr hs
  refine ⟨lvl', hG, ?_⟩
  have hH := nw.receive_handled σ f io
  exact {
    taken := by
      by_cases hsf : s = f.dst
      · rw [hsf, hs.node_dst hf, broadcastNo_of_handled hH, ← hsf]
        exact hF.taken
      · rw [hs.node_ne hf hsf]
        exact hF.taken
    forced := by
      intro n
      by_cases hn : n = f.dst
      · rw [hn, hs.node_dst hf, forcedDiscovery_of_handled hH]
        exact hF.forced f.dst
      · rw [hs.node_ne hf hn]
        exact hF.forced n
    source := hG.sub hF.source
    dest := hG.dest
    supported := hG.supported
    pack := hF.pack_deliver hf hs
    rreq := hF.rreq_deliver hk hsd hf hfr hs hG
    rrep := hF.rrep_deliver hk hsd hf hfr hs hG
    back := hF.back_deliver hk hsd hf hfr hs hG
    heard := hF.heard_deliver hk hsd hf hfr hs hG
    known := fun n hn => hF.known_deliver hk hf hfr hs hG hn
    forth := hF.forth_deliver hk hsd hf hfr hs hG
    spread := hF.spread_deliver hk hwf hf hfr hs hG
    copies := hF.copies_deliver hk hsd hwf hf hfr hs hG
    reply := hF.reply_deliver hk hsd hwf hf hfr hs hG
    arrived := hF.arrived_deliver hk hsd hf hfr hs }

end Assembly

end Network

end Odr
