/-
# Loop freedom

Two results on the routes that discovery builds.  While no DATA packet is delivered and no
update meets a stale entry, every route descends: it is at least one hop long, its next node
is the destination or has a shorter route, and so following the next hops reaches the
destination on a path no longer than the hop count.

In full operation the tables can loop, because a stale entry is replaced by whatever packet
comes first and a DATA packet carries the hop count of an RREQ.  They do not in runs all of
whose deliveries are feasible, and then no DATA packet is relayed for ever.
-/
import Odr.Network.Descent
import Odr.Network.Lab

namespace Odr

open DistanceVector Lab

namespace Network

variable {k : ℕ} {nw : Network k}

/-- The next hop of `n` for a key belongs to `m`. -/
def NextHop (nw : Network k) (σ : Net k) (key : ℤ) (n m : Fin k) : Prop :=
  ∃ e, findKey key (σ.node n).rtbl = some e ∧ nw.Owns m e.nextHopHwaddr

lemma next_iff {σ : Net k} {key : ℤ} {n m : Fin k} :
    Next nw.key (nw.tables σ) key n m ↔ nw.key n ≠ key ∧ nw.NextHop σ key n m := by
  constructor
  · rintro ⟨hn, r, hr, rfl⟩
    obtain ⟨e, he, hm, -⟩ := tables_eq_some.mp hr
    exact ⟨hn, e, he, hm⟩
  · rintro ⟨hn, e, he, hm⟩
    exact ⟨hn, ⟨e.hop, m⟩, tables_eq_some.mpr ⟨e, he, hm, rfl⟩, rfl⟩

/-- A next hop that is another node is a neighbour. -/
lemma NextHop.adj {σ : Net k} (hwf : nw.Wf σ) {key : ℤ} {n m : Fin k}
    (h : nw.NextHop σ key n m) (hne : n ≠ m) : nw.graph.Adj n m := by
  obtain ⟨e, he, hm⟩ := h
  exact (hwf.route n key e he).adj hm hne

/-! ## Discovery with fresh entries -/

/-- The copy is no DATA packet, and the entry that it meets is not older than `sp`. -/
def FreshFor (nw : Network k) (σ : Net k) (f : Transit k) : Prop :=
  f.pack.type ≠ .data ∧ ∀ o ∈ nw.offerOf σ f, ∀ e ∈ findKey o.key (σ.node f.dst).rtbl,
    o.now - e.ts ≤ (nw.host f.dst).sp

/-- The steps of discovery: DATA stays undelivered and nothing is stale. -/
def FreshStep (nw : Network k) (σ : Net k) : Label k → Prop
  | .deliver i _ => ∀ f ∈ σ.wire[i]?, nw.FreshFor σ f
  | _ => True

instance (σ : Net k) (f : Transit k) : Decidable (nw.FreshFor σ f) :=
  inferInstanceAs (Decidable (_ ∧ _))

instance (σ : Net k) (l : Label k) : Decidable (nw.FreshStep σ l) :=
  match l with
  | .deliver i _ => inferInstanceAs (Decidable (∀ f ∈ σ.wire[i]?, _))
  | .request _ _ _ => .isTrue trivial
  | .lose _ => .isTrue trivial
  | .tick _ => .isTrue trivial

lemma FreshFor.feasible {σ : Net k} {f : Transit k} (h : nw.FreshFor σ f) : nw.Feasible σ f := by
  intro o ho e he _
  have hfresh := h.2 o ho e he
  exact ⟨fun hst => absurd hst (by omega), fun hd => absurd hd h.1⟩

lemma FreshStep.feasible {σ : Net k} {l : Label k} (h : nw.FreshStep σ l) :
    nw.FeasibleStep σ l := by
  cases l with
  | deliver i io => exact fun f hf _ => (h f hf).feasible
  | request n client req => trivial
  | lose i => trivial
  | tick d => trivial

/-- Positivity of the hop count that belongs to the type of a packet. -/
def OdrPack.Counted (p : OdrPack) : Prop :=
  (p.type = .rreq → 1 ≤ p.rreq.hop) ∧ (p.type = .rrep → 1 ≤ p.rrep.hop)

/-- Every hop count is positive, in the tables and in flight. -/
structure Counted (σ : Net k) : Prop where
  route : ∀ n key e, findKey key (σ.node n).rtbl = some e → 1 ≤ e.hop
  wire : ∀ f ∈ σ.wire, OdrPack.Counted f.pack

lemma Counted.initial {σ : Net k} (h : σ.Initial) : Counted σ where
  route n key e he := by rw [(h.node n).rtbl, findKey_nil] at he; simp at he
  wire f hf := by rw [h.wire] at hf; simp at hf

lemma counted_of_data {p : OdrPack} (h : p.type = .data) : OdrPack.Counted p :=
  ⟨fun h' => absurd (h.symm.trans h') (by simp), fun h' => absurd (h.symm.trans h') (by simp)⟩

/-- An update from a counted packet records only positive hop counts. -/
lemma one_le_hop_of_learned {σ : Net k} {f : Transit k} (hc : Counted σ) (hf : f ∈ σ.wire)
    (hfr : nw.FreshFor σ f) {key : ℤ} {e' : RtblEntry}
    (he' : findKey key (nw.learned σ f).rtbl = some e') : 1 ≤ e'.hop := by
  rcases findKey_updateRtblEntry_cases _ he' with
    ⟨e, ip, he, rfl⟩ | ⟨o, ho, rfl, -, -, -, -, had⟩
  · exact hc.route f.dst key e he
  have hhop : 1 ≤ o.hop := by
    rw [offer] at ho
    rcases hp : f.pack.type with _ | _ | _ | n
    · simp only [hp, Option.some.injEq] at ho
      subst ho
      exact (hc.wire f hf).1 hp
    · simp only [hp, Option.some.injEq] at ho
      subst ho
      exact (hc.wire f hf).2 hp
    · exact absurd hp hfr.1
    · simp [hp] at ho
  generalize hfind : findKey o.key (σ.node f.dst).rtbl = oe at had
  generalize e'.hop = x at had ⊢
  cases had with
  | new => exact hhop
  | better e hfresh hlt => exact hhop
  | stale e hstale =>
    have hfresh := hfr.2 o ho e hfind
    exact absurd hstale (by omega)

/-- The packets that leave after a counted one are counted. -/
lemma counted_of_leaves {rs : Resolver} {h : Host} {now : ℤ} {s : Node} {p q : OdrPack}
    {srcHw : HwAddr} {recvIf : ℤ} (hl : Leaves rs h now s p srcHw recvIf q)
    (hp : OdrPack.Counted p)
    (ht : ∀ key e, findKey key (s.learn rs h now p srcHw recvIf).rtbl = some e → 1 ≤ e.hop) :
    OdrPack.Counted q := by
  cases hl with
  | destReply => exact ⟨fun h' => by simp [OdrPack.destReply] at h', fun _ => le_rfl⟩
  | reflood hop hty =>
    have h1 := hp.1 hty
    exact ⟨fun _ => by simp only [OdrPack.reflood]; omega,
      fun h' => by simp [OdrPack.reflood, hty] at h'⟩
  | tableReply hop hty e he =>
    have h2 := ht _ e he
    exact ⟨fun h' => by simp [OdrPack.tableReply] at h',
      fun _ => by simp only [OdrPack.tableReply]; omega⟩
  | answered hop hty e =>
    have h1 := hp.1 hty
    exact ⟨fun _ => by simp only [OdrPack.answered]; omega,
      fun h' => by simp [OdrPack.answered] at h'⟩
  | relayReply hop hty =>
    have h1 := hp.2 hty
    exact ⟨fun h' => by simp [OdrPack.relayReply, hty] at h',
      fun _ => by simp only [OdrPack.relayReply]; omega⟩
  | request => exact counted_of_data rfl
  | timeReply hop hty => exact counted_of_data hty
  | same hop hty => exact counted_of_data hty

lemma counted_of_mem_request {σ : Net k} {n : Fin k} {client : UnAddr} {req : OdrReq}
    {g : Frame} (hg : g ∈ (nw.request σ n client req).sent) : OdrPack.Counted g.pack := by
  rcases pack_of_mem_request hg with h | ⟨-, h⟩
  · rw [h]
    exact counted_of_data rfl
  · rw [h]
    exact ⟨fun _ => le_rfl, fun h' => by simp [rreqPack] at h'⟩

/-- A wire that grows by counted frames. -/
lemma counted_of_mem_transmit {frames : List Frame} {cause : Fin k × UnAddr}
    (hfr : ∀ g ∈ frames, OdrPack.Counted g.pack) {t : Transit k}
    (ht : t ∈ nw.transmit cause frames) : OdrPack.Counted t.pack := by
  obtain ⟨g, hg, j, -, -, -, -, hpack, -⟩ := mem_transmit.mp ht
  rw [hpack]
  exact hfr g hg

theorem Counted.step {σ σ' : Net k} {l : Label k} (hc : Counted σ) (hfr : nw.FreshStep σ l)
    (hs : nw.Steps σ l σ') : Counted σ' := by
  refine ⟨fun m key e he => ?_, fun t ht => ?_⟩
  · cases hs.node m with
    | same hl h => rw [h] at he; exact hc.route m key e he
    | request client req hl h => rw [h] at he; exact hc.route m key e he
    | deliver i io f hl hf hm h =>
      subst hl hm
      rw [h, rtbl_receive] at he
      split at he
      · exact one_le_hop_of_learned hc (mem_wire_of_getElem hf) (hfr f hf) he
      · exact hc.route f.dst key e he
  · cases hs.wire ht with
    | old h => exact hc.wire t h
    | request n client req hl h =>
      exact counted_of_mem_transmit (fun g hg => counted_of_mem_request hg) h
    | deliver i io f hl hf h =>
      subst hl
      have hmem := mem_wire_of_getElem hf
      exact counted_of_mem_transmit
        (fun g hg => counted_of_leaves ((nw.receive_handled σ f io).leaves hg) (hc.wire f hmem)
          fun key e => one_le_hop_of_learned hc hmem (hfr f hf)) h

lemma counted_of_reach {σ : Net k} (h : nw.system.Reach nw.FreshStep σ) : Counted σ :=
  h.invariant (fun _ => Counted.initial) fun _ _ _ _ hc hfr hs => hc.step hfr (steps_of_step hs)

/-! ## Paths along the next hops -/

/-- A chain of neighbours is a walk. -/
lemma exists_walk_of_isChain {V : Type*} {G : SimpleGraph V} {n d : V} {l : List V}
    (h : (n :: l).IsChain G.Adj) (hd : (n :: l).getLast? = some d) :
    ∃ w : G.Walk n d, w.length = l.length := by
  induction l generalizing n with
  | nil =>
    obtain rfl : n = d := by simpa using hd
    exact ⟨.nil, rfl⟩
  | cons m l ih =>
    rw [List.isChain_cons_cons] at h
    obtain ⟨w, hw⟩ := ih h.2 (by simpa using hd)
    exact ⟨.cons h.1 w, by simp [hw]⟩

lemma not_transGen_next {nw : NamedNetwork k} {σ : Net k} (hσ : nw.system.Reach nw.FreshStep σ)
    (key : ℤ) (n : Fin k) :
    ¬Relation.TransGen (Next nw.key (nw.tables σ) key) n n :=
  (backed_of_reach (hσ.mono fun _ _ => FreshStep.feasible)).descends.not_transGen_self key n

/-- The next hops lead from a node with an entry for `d` to `d`. -/
lemma exists_nextHops {nw : NamedNetwork k} {σ : Net k} (hσ : nw.system.Reach nw.FreshStep σ)
    {n d : Fin k} (hnd : d ≠ n) {e : RtblEntry} (he : findKey (nw.key d) (σ.node n).rtbl = some e) :
    ∃ l, (n :: l).IsChain (Next nw.key (nw.tables σ) (nw.key d)) ∧
      (n :: l).getLast? = some d ∧ (n :: l).Nodup ∧ (l.length : ℤ) ≤ e.hop := by
  have hc := counted_of_reach hσ
  have hdesc := (backed_of_reach (hσ.mono fun _ _ => FreshStep.feasible)).descends
  have hpos : ∀ n key r, nw.tables σ n key = some r → 1 ≤ r.hop := by
    intro n key r hr
    obtain ⟨e, he, -, hhop⟩ := tables_eq_some.mp hr
    rw [hhop]
    exact hc.route n key e he
  obtain ⟨m, -, hT⟩ := (wf_of_reach hσ).exists_tables he
  obtain ⟨l, d', hchain, hlast, hd', hlen⟩ :=
    hdesc.exists_path hpos (fun h => hnd (key_inj h).symm) hT
  obtain rfl := key_inj hd'
  exact ⟨l, hchain, hlast, nodup_of_isChain (not_transGen_next hσ _) hchain, hlen⟩

/-- **Hop descent of route discovery.** In every run of requests, losses and deliveries of
RREQ and RREP packets that meet no stale entry, every entry of `n` for `d` takes at least one
hop, and its next node is `d` or has a shorter entry for `d`.  The next hops lead to `d` on a
path that visits no node twice, in at most as many links as the entry counts, and this count
is at least the distance. -/
theorem hop_descent {nw : NamedNetwork k} {σ : Net k} (hσ : nw.system.Reach nw.FreshStep σ)
    {n d : Fin k} (hnd : d ≠ n) {e : RtblEntry} (he : e ∈ (σ.node n).rtbl)
    (hkey : e.key = nw.key d) :
    (∀ m, nw.Owns m e.nextHopHwaddr → 1 ≤ e.hop ∧
      (m = d ∨ ∃ e' ∈ (σ.node m).rtbl, e'.key = nw.key d ∧ e'.hop ≤ e.hop - 1)) ∧
    (∃ l, (n :: l).IsChain (nw.NextHop σ (nw.key d)) ∧ (n :: l).getLast? = some d ∧
      (n :: l).Nodup ∧ (l.length : ℤ) ≤ e.hop) ∧
    nw.graph.Reachable n d ∧ (nw.graph.dist n d : ℤ) ≤ e.hop := by
  have hwf := wf_of_reach hσ
  have hc := counted_of_reach hσ
  have hdesc := (backed_of_reach (hσ.mono fun _ _ => FreshStep.feasible)).descends
  have hfind : findKey (nw.key d) (σ.node n).rtbl = some e := by
    rw [← hkey]
    exact findKey_of_mem (hwf.nodup n) he
  have hown : nw.key n ≠ nw.key d := fun h => hnd (key_inj h).symm
  obtain ⟨m, hm, hT⟩ := hwf.exists_tables hfind
  refine ⟨fun m' hm' => ⟨hc.route n _ e hfind, ?_⟩, ?_⟩
  · obtain rfl := hm.unique hm'
    rcases hdesc n _ _ hown hT with hd | ⟨r, hr, hlt⟩
    · exact Or.inl (key_inj hd)
    · obtain ⟨e', he', -, hhop⟩ := tables_eq_some.mp hr
      refine Or.inr ⟨e', mem_of_findKey he', key_of_findKey he', ?_⟩
      simp only at hlt
      omega
  · obtain ⟨l, hchain, hlast, hnodup, hlen⟩ := exists_nextHops hσ hnd hfind
    -- no edge of the chain is a loop, so its next hops are neighbours
    have hadj : (n :: l).IsChain nw.graph.Adj := by
      refine hchain.imp fun a b hab => (next_iff.mp hab).2.adj hwf ?_
      rintro rfl
      exact not_transGen_next hσ _ _ (.single hab)
    obtain ⟨w, hw⟩ := exists_walk_of_isChain hadj hlast
    refine ⟨⟨l, hchain.imp fun a b hab => (next_iff.mp hab).2, hlast, hnodup, hlen⟩, ⟨w⟩, ?_⟩
    have hdist := SimpleGraph.dist_le w
    omega

/-- The first node of a pair asks for the second, and the RREQ arrives. -/
def pairFlood : List (Label 2) :=
  [asks 0 0 1, .deliver 0 (answering [])]

theorem hop_descent_pair : pair.graph.Reachable 1 0 ∧ (pair.graph.dist 1 0 : ℤ) ≤ 1 := by
  have hσ : pair.system.Reach pair.FreshStep (after pair pairFlood) :=
    reach_after (by decide +kernel) (by decide +kernel)
  exact (hop_descent hσ (n := 1) (d := 0) (by decide) (e := ⟨1, ip 0, 1, 2, 1, 0⟩)
    (by decide +kernel) (by decide +kernel)).2.2

/-! ## Full operation -/

/-- DATA copies that go round for ever: the first is a DATA packet from `s` for `d`, and each
of the following is sent by the node that receives the one before and whose routing table is
then still what it is in `σ`. -/
structure RelayedForEver (nw : Network k) (σ : Net k) (s d : Fin k) (w : ℕ → Transit k) :
    Prop where
  type : (w 0).pack.type = .data
  src : (w 0).pack.srcCanIpStr = nw.addr s
  dest : (w 0).pack.destCanIpStr = nw.addr d
  relay : ∀ i, ∃ (τ : Net k) (io : UnixIo),
    (nw.receive τ (w i) io).node.rtbl = (σ.node (w i).dst).rtbl ∧
    w (i + 1) ∈ nw.transmit (w i).cause (nw.receive τ (w i) io).sent

/-- The copies of a payload that a node sends arrive at its next hop for the key. -/
lemma nextHop_of_mem_transmit {σ : Net k} (hwf : nw.Wf σ) {n : Fin k} {ifs : List IfInfo}
    {p : OdrPack} {key : ℤ} {cause : Fin k × UnAddr} {t : Transit k}
    (ht : t ∈ nw.transmit cause (payloadFrames ifs (σ.node n).rtbl p key)) :
    nw.NextHop σ key n t.dst ∧ t.pack = p := by
  obtain ⟨hp, e, he, hm⟩ := exists_hop_of_mem_transmit (hwf.nodup n)
    (fun e he => (hwf.route n key e he).exists_owns) ht
  exact ⟨⟨e, he, hm⟩, hp⟩

/-- A DATA packet goes on along the next hops for its destination, or it leaves with the
direction `-1` along those for its source. -/
lemma relay_cases {nw : NamedNetwork k} {σ τ : Net k} (hwf : nw.Wf σ) {s d : Fin k}
    {f t : Transit k} {io : UnixIo} (hty : f.pack.type = .data)
    (hsrc : f.pack.srcCanIpStr = nw.addr s) (hdest : f.pack.destCanIpStr = nw.addr d)
    (hr : (nw.receive τ f io).node.rtbl = (σ.node f.dst).rtbl)
    (ht : t ∈ nw.transmit f.cause (nw.receive τ f io).sent) :
    (t.pack.type = .data ∧ t.pack.srcCanIpStr = nw.addr s ∧ t.pack.destCanIpStr = nw.addr d) ∧
      ((t.pack.srcDest = -1 ∧ nw.key f.dst ≠ nw.key s ∧
          nw.NextHop σ (nw.key s) f.dst t.dst) ∨
        (f.pack.srcDest = 1 ∧ t.pack.srcDest = 1 ∧ nw.key f.dst ≠ nw.key d ∧
          nw.NextHop σ (nw.key d) f.dst t.dst)) := by
  have hkey : ∀ {m : Fin k} {ip : CanIp}, ip = nw.addr m → ip ≠ nw.addr f.dst →
      nw.key f.dst ≠ nw.key m := by
    rintro m ip rfl hne h
    exact hne (congrArg nw.addr (key_inj h)).symm
  have hs : srcKey nw.rs f.pack = nw.key s := congrArg nw.idx hsrc
  have hd : destKey nw.rs f.pack = nw.key d := congrArg nw.idx hdest
  have H := nw.receive_handled τ f io
  revert H hr ht
  generalize (nw.receive τ f io).node = s', (nw.receive τ f io).sent = fr,
    (nw.receive τ f io).unix = ux
  intro hr ht H
  cases H with
  -- turned round or on its way back, the packet follows the entry for its source
  | dataTurn hop hty' hself hdst text hio =>
    simp only at hr
    rw [hr, hs] at ht
    obtain ⟨hn, hp⟩ := nextHop_of_mem_transmit hwf ht
    rw [hp]
    exact ⟨⟨hty, hsrc, hdest⟩, Or.inl ⟨rfl, hkey hsrc (isSelfSrc_eq_zero.mp hself), hn⟩⟩
  | dataToServer hop hty' hself hdst hdir =>
    rw [hr, hd] at ht
    obtain ⟨hn, hp⟩ := nextHop_of_mem_transmit hwf ht
    rw [hp]
    exact ⟨⟨hty, hsrc, hdest⟩,
      Or.inr ⟨hdir, hdir, hkey hdest (isSelfDest_eq_zero.mp hdst), hn⟩⟩
  | dataToClient hop hty' hself hdst hdir =>
    rw [hr, hs] at ht
    obtain ⟨hn, hp⟩ := nextHop_of_mem_transmit hwf ht
    rw [hp]
    exact ⟨⟨hty, hsrc, hdest⟩, Or.inl ⟨hdir, hkey hsrc (isSelfSrc_eq_zero.mp hself), hn⟩⟩
  | rreqDest hop hty' => simp [hty] at hty'
  | rreqFlood hop hty' => simp [hty] at hty'
  | rreqAnswer hop hty' => simp [hty] at hty'
  | rrepSource hop hty' => simp [hty] at hty'
  | rrepRelay hop hty' => simp [hty] at hty'
  | _ => simp [transmit] at ht

/-- **Acyclic tables carry no DATA packet for ever.** -/
lemma not_relayedForEver {nw : NamedNetwork k} {σ : Net k} (hwf : nw.Wf σ)
    (hacyc : ∀ key n, ¬Relation.TransGen (Next nw.key (nw.tables σ) key) n n) (s d : Fin k)
    (w : ℕ → Transit k) : ¬nw.RelayedForEver σ s d w := by
  intro hw
  have hpack : ∀ i, (w i).pack.type = .data ∧ (w i).pack.srcCanIpStr = nw.addr s ∧
      (w i).pack.destCanIpStr = nw.addr d := by
    intro i
    induction i with
    | zero => exact ⟨hw.type, hw.src, hw.dest⟩
    | succ i ih =>
      obtain ⟨τ, io, hr, ht⟩ := hw.relay i
      exact (relay_cases hwf ih.1 ih.2.1 ih.2.2 hr ht).1
  have hstep : ∀ i, ((w (i + 1)).pack.srcDest = -1 ∧
      Next nw.key (nw.tables σ) (nw.key s) (w i).dst (w (i + 1)).dst) ∨
      ((w i).pack.srcDest = 1 ∧ (w (i + 1)).pack.srcDest = 1 ∧
        Next nw.key (nw.tables σ) (nw.key d) (w i).dst (w (i + 1)).dst) := by
    intro i
    obtain ⟨τ, io, hr, ht⟩ := hw.relay i
    obtain ⟨h₁, h₂, h₃⟩ := hpack i
    rcases (relay_cases hwf h₁ h₂ h₃ hr ht).2 with ⟨h, hn⟩ | ⟨h, h', hn⟩
    · exact Or.inl ⟨h, next_iff.mpr hn⟩
    · exact Or.inr ⟨h, h', next_iff.mpr hn⟩
  by_cases hturn : ∃ i, (w (i + 1)).pack.srcDest = -1
  · -- once the direction is `-1` it stays, and the copies follow the next hops for `s`
    obtain ⟨i₀, hi₀⟩ := hturn
    have hback : ∀ j, (w (i₀ + 1 + j)).pack.srcDest = -1 := by
      intro j
      induction j with
      | zero => exact hi₀
      | succ j ih =>
        rcases hstep (i₀ + 1 + j) with ⟨h, -⟩ | ⟨h, -⟩
        · exact h
        · rw [ih] at h
          simp at h
    refine no_infinite_walk (hacyc (nw.key s)) (fun j => (w (i₀ + 1 + j)).dst) fun j => ?_
    rcases hstep (i₀ + 1 + j) with ⟨-, h⟩ | ⟨h, -⟩
    · exact h
    · rw [hback j] at h
      simp at h
  · refine no_infinite_walk (hacyc (nw.key d)) (fun j => (w j).dst) fun j => ?_
    rcases hstep j with ⟨h, -⟩ | ⟨-, -, h⟩
    · exact absurd ⟨j, h⟩ hturn
    · exact h

/-- **No routing loops in full operation**, when every delivery is feasible: then no next-hop
graph has a cycle, and no DATA packet with the addresses of two nodes goes round for ever while
the tables stay. -/
theorem loop_free {nw : NamedNetwork k} {σ : Net k} (hσ : nw.system.Reach nw.FeasibleStep σ) :
    (∀ key n, ¬Relation.TransGen (fun a b => nw.key a ≠ key ∧ nw.NextHop σ key a b) n n) ∧
      ∀ s d w, ¬nw.RelayedForEver σ s d w := by
  have hdesc := (backed_of_reach hσ).descends
  refine ⟨fun key n hn => hdesc.not_transGen_self key n ?_,
    not_relayedForEver (wf_of_reach hσ) hdesc.not_transGen_self⟩
  exact Relation.TransGen.mono (fun a b hab => next_iff.mpr hab) _ _ hn

/-- A whole session on two nodes: the time is asked for, the table entry of the first node
grows stale at the second before the DATA packet arrives and replaces it, and the answer
comes back. -/
def pairSession : List (Label 2) :=
  [asks 0 0 1, .deliver 0 (answering []),
    .deliver 0 (answering []), .tick 10, .deliver 0 (answering [65]),
    .deliver 0 (answering [])]

theorem loop_free_pair :
    (∀ key n, ¬Relation.TransGen (fun a b => pair.key a ≠ key ∧
      pair.NextHop (after pair pairSession) key a b) n n) ∧
      ∀ s d w, ¬pair.RelayedForEver (after pair pairSession) s d w :=
  loop_free (reach_after (by decide +kernel) (by decide +kernel))

/-- The first node asks for a node that is not there.  The two others learn it directly and
flood; each receives the other's copy when its own entry has become stale. -/
def triangleStale : List (Label 3) :=
  [asks 0 0 3, .deliver 0 (answering []),
    .deliver 0 (answering []), .tick 10, .deliver 0 (answering []),
    .deliver 0 (answering [])]

/-- Each of the two replaces its stale entry by the route through the other. -/
theorem stale_loop :
    ∃ σ, triangle.system.Reach (fun _ _ => True) σ ∧
      Relation.TransGen (fun a b => triangle.key a ≠ triangle.key 0 ∧
        triangle.NextHop σ (triangle.key 0) a b) 1 1 := by
  refine ⟨after triangle triangleStale,
    reach_after (by decide +kernel) (fun _ _ => trivial), ?_⟩
  have h₁ : triangle.NextHop (after triangle triangleStale) (triangle.key 0) 1 2 :=
    ⟨⟨1, ip 0, 6, 5, 1, 10⟩, by decide +kernel, by decide +kernel⟩
  have h₂ : triangle.NextHop (after triangle triangleStale) (triangle.key 0) 2 1 :=
    ⟨⟨1, ip 0, 5, 6, 1, 10⟩, by decide +kernel, by decide +kernel⟩
  exact .tail (.single ⟨by decide, h₁⟩) ⟨by decide, h₂⟩

end Network

end Odr
