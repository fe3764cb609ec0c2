/-
# What an exchange leaves behind

After the first exchange from a cold start there is a `Ready` way from `s` to `d`.  `Paved` is the
invariant that shows it, from the moment when the request has left `s`.  The routes to `d` that
are as short as that of `s` lead to nodes that are nearer, which neither a late RREP nor the
reply changes; a node with a route to `d` has one to `s`, because RREPs take no other way; and a
route to `s` with one hop leads to `s`.

While the route is still sought, `Owed` says of every RREP how much of the way of the RREQ that it
answers is left for it.
-/
import Odr.Network.CachedExchange

namespace Odr

open DistanceVector Flooding

namespace Network

variable {k : ℕ}

section Defs

variable (nw : Network k) (s d : Fin k)

/-- The node is `s` or has a route to `s`. -/
def Knows (σ : Net k) (n : Fin k) : Prop :=
  n = s ∨ ∃ e, findKey (nw.key s) (σ.node n).rtbl = some e

/-- An RREP has crossed no more links than the RREQ that it answers, the rest of its way
included. -/
def Owed (σ : Net k) : Prop :=
  ∀ f ∈ σ.wire, f.pack.type = .rrep → f.pack.rrep.hop ≤ f.pack.rreq.hop ∧
    (f.dst ≠ s → ∃ e, findKey (nw.key s) (σ.node f.dst).rtbl = some e ∧
      e.hop + f.pack.rrep.hop ≤ f.pack.rreq.hop)

/-- The invariant from the first DATA packet on, which has `rreq.hop = H`. -/
structure Paved (H : ℤ) (σ : Net k) : Prop where
  ahead : nw.BackRoute d s H σ
  dest : ∃ e, findKey (nw.key s) (σ.node d).rtbl = some e
  back : ∀ n, (∃ e, findKey (nw.key d) (σ.node n).rtbl = some e) → nw.Knows s σ n
  closed : ∀ n e m, findKey (nw.key s) (σ.node n).rtbl = some e → nw.Owns m e.nextHopHwaddr →
    nw.Knows s σ m
  heard : ∀ n, n ≠ d → (∃ e, findKey (nw.key s) (σ.node n).rtbl = some e) →
    n ∈ nw.forwarders s σ
  near : ∀ n e, findKey (nw.key s) (σ.node n).rtbl = some e → e.hop ≤ 1 →
    nw.Owns s e.nextHopHwaddr
  rreq : ∀ f ∈ σ.wire, f.pack.type = .rreq → f.pack.rreq.rrepSent = 0
  rrep : ∀ f ∈ σ.wire, f.pack.type = .rrep → nw.Knows s σ f.dst
  /-- A request comes from a node with a route to `s`, and if its `rreq.hop` is 1 it goes straight
  from `s` to `d`. -/
  data : ∀ f ∈ σ.wire, f.pack.type = .data → f.pack.rreq.hop = H ∧
    (f.pack.srcDest = 1 → ∀ m, nw.Owns m f.hwSrc → nw.Knows s σ m ∧ (H ≤ 1 → m = s ∧ f.dst = d))

end Defs

variable {nw : Network k} {s d : Fin k} {client : UnAddr} {σ σ' : Net k} {f t : Transit k}
  {i : ℕ} {io : UnixIo} {tr : List (Net k × Label k)} {lvl : Fin k → ℤ} {H : ℤ} {n m : Fin k}

lemma Knows.of_steps {l : Label k} (hs : nw.Steps σ l σ') (h : nw.Knows s σ n) :
    nw.Knows s σ' n := by
  rcases h with h | ⟨e, he⟩
  · exact Or.inl h
  · obtain ⟨e', he', -⟩ := exists_findKey_of_steps hs he
    exact Or.inr ⟨e', he'⟩

/-- A node within some hops of `s` knows `s`. -/
lemma knows_of_within {nw : NamedNetwork k} {x : ℤ} (h : Within nw.key (nw.tables σ) n (nw.key s) x)
    :
    nw.Knows s σ n := by
  by_cases hn : n = s
  · exact Or.inl hn
  · obtain ⟨e, he, -⟩ := exists_of_within h hn
    exact Or.inr ⟨e, he⟩

/-- A node within one hop of another is this node. -/
lemma eq_of_within {nw : NamedNetwork k}
    (hpos : ∀ n key e, findKey key (σ.node n).rtbl = some e → 1 ≤ e.hop) {x : ℤ}
    (h : Within nw.key (nw.tables σ) n (nw.key m) x) (hx : x ≤ 1) : n = m := by
  by_contra hne
  obtain ⟨e, he, hlt⟩ := exists_of_within h hne
  have h1 := hpos n _ e he
  omega

/-! ## From a paved way to a way that is ready -/

/-- Along a route that is as short as `BackRoute` wants the next hops lead to its end. -/
lemma BackRoute.exists_path {nw : NamedNetwork k} {x y : Fin k} (hB : nw.BackRoute x y H σ)
    (hwf : nw.Wf σ) (hpos : ∀ n key e, findKey key (σ.node n).rtbl = some e → 1 ≤ e.hop) {n : Fin k}
    {e : RtblEntry} (hnx : n ≠ x) (he : findKey (nw.key x) (σ.node n).rtbl = some e)
    (hle : n = y ∧ e.hop ≤ H ∨ e.hop < H) :
    ∃ l, (n :: l).IsChain (nw.NextHop σ (nw.key x)) ∧ (n :: l).getLast? = some x ∧
      (n :: l).Nodup ∧
      ∀ b ∈ l, b = x ∨ ∃ e', findKey (nw.key x) (σ.node b).rtbl = some e' ∧ e'.hop < e.hop := by
  induction hN : e.hop.toNat using Nat.strong_induction_on generalizing n e with
  | _ N ih =>
    obtain ⟨m, hm⟩ := (hwf.route n _ e he).exists_owns
    have hnm : nw.NextHop σ (nw.key x) n m := ⟨e, he, hm⟩
    have hw := hB.descend n e m hnx he (hle.imp_left fun h => h.1) hm
    by_cases hmx : m = x
    · subst hmx
      exact ⟨[m], List.isChain_pair.mpr hnm, rfl, by simpa using hnx, by simp⟩
    · obtain ⟨e₁, he₁, hlt⟩ := exists_of_within hw hmx
      have h1 := hpos n _ e he
      have h1' := hpos m _ e₁ he₁
      obtain ⟨l, hchain, hlast, hnodup, hl⟩ := ih e₁.hop.toNat (by omega) hmx he₁
        (Or.inr (by omega)) rfl
      have hall : ∀ b ∈ m :: l, b = x ∨
          ∃ e', findKey (nw.key x) (σ.node b).rtbl = some e' ∧ e'.hop < e.hop := by
        intro b hb
        rcases List.mem_cons.mp hb with rfl | hb
        · exact Or.inr ⟨e₁, he₁, hlt⟩
        · rcases hl b hb with h | ⟨e', he', hlt'⟩
          · exact Or.inl h
          · exact Or.inr ⟨e', he', hlt'.trans hlt⟩
      refine ⟨m :: l, List.isChain_cons_cons.mpr ⟨hnm, hchain⟩, ?_, ?_, hall⟩
      · rw [List.getLast?_cons_cons]
        exact hlast
      · refine List.nodup_cons.mpr ⟨fun hmem => ?_, hnodup⟩
        rcases hall n hmem with h | ⟨e', he', hlt'⟩
        · exact hnx h
        · obtain rfl := Option.some_injective _ (he.symm.trans he')
          exact lt_irrefl _ hlt'

/-- **A paved way is ready** for the next request. -/
theorem Paved.exists_ready {nw : NamedNetwork k} (h : nw.Paved s d H σ) (hsd : s ≠ d)
    (hwf : nw.Wf σ) (hpos : ∀ n key e, findKey key (σ.node n).rtbl = some e → 1 ≤ e.hop) :
    ∃ l, nw.Ready s d l σ := by
  obtain ⟨e, he, hle⟩ := h.ahead.entry
  obtain ⟨l, hchain, hlast, hnodup, hl⟩ :=
    h.ahead.exists_path hwf hpos hsd he (Or.inl ⟨rfl, hle⟩)
  refine ⟨s :: l, ⟨hnodup, rfl, hlast⟩, hchain.imp_of_mem_tail_imp fun a b _ hb hab => ⟨hab, ?_⟩⟩
  have hbs : b ≠ s := by
    rintro rfl
    exact (List.nodup_cons.mp hnodup).1 hb
  have hknows : ∃ e, findKey (nw.key s) (σ.node b).rtbl = some e := by
    rcases hl b hb with rfl | ⟨e', he', -⟩
    · exact h.dest
    · exact (h.back b ⟨e', he'⟩).resolve_left hbs
  obtain ⟨e', he'⟩ := hknows
  refine ⟨e', he', ?_⟩
  rcases lt_or_ge 1 e'.hop with hlt | hge
  · exact Or.inl hlt
  · exact Or.inr (Or.inr (h.near b e' he' hge))

/-- After a delivery a copy in flight is an old one, or the receiver has sent it. -/
lemma mem_wire_deliver (hf : σ.wire[i]? = some f) (hs : nw.Steps σ (.deliver i io) σ')
    (ht : t ∈ σ'.wire) : t ∈ σ.wire ∨ t ∈ nw.transmit f.cause (nw.receive σ f io).sent := by
  cases hs.wire ht with
  | old h => exact Or.inl h
  | request n c req hl h => simp at hl
  | deliver i' io' f' hl hf' h =>
    cases hl
    obtain rfl := Option.some_injective _ (hf.symm.trans hf')
    exact Or.inr h

/-! ## The record of the RREQ -/

lemma Talk.broadcastId (hT : nw.Talk s d client σ) (hf : f ∈ σ.wire) (hty : f.pack.type = .rreq) :
    f.pack.rreq.broadcastId = 1 := by
  obtain ⟨m, -, -, hp⟩ := hT.sent f hf
  simp only [Placed, hty] at hp
  exact hp.1

section Forwarders

variable {nw : NamedNetwork k} (hT : nw.Talk s d client σ) (hf : σ.wire[i]? = some f)
  (hs : nw.Steps σ (.deliver i io) σ')
include hT hf hs

lemma Talk.mem_forwarders_deliver (hn : n ∈ nw.forwarders s σ) : n ∈ nw.forwarders s σ' := by
  have hmem := mem_wire_of_getElem hf
  by_cases hnf : n = f.dst
  · subst hnf
    rw [mem_forwarders, hs.node_dst hf, (nw.receive_handled σ f io).latestRreq]
    split
    · next hnew =>
      rw [hT.srcKey hmem, Function.update_self, hT.broadcastId hmem hnew.1]
      decide
    · exact hn
  · rw [mem_forwarders, hs.node_ne hf hnf]
    exact hn

lemma Talk.mem_forwarders_of_rreq (hop : f.pack.WithinMaxh) (hty : f.pack.type = .rreq)
    (hsent : f.pack.rreq.rrepSent = 0) (hnd : f.dst ≠ d) : f.dst ∈ nw.forwarders s σ' := by
  have hmem := mem_wire_of_getElem hf
  by_cases hfw : f.dst ∈ nw.forwarders s σ
  · exact hT.mem_forwarders_deliver hf hs hfw
  · have hself : isSelfDest (nw.host f.dst) f.pack.destCanIpStr ≠ 1 :=
      mt isSelfDest_eq_one.mp (mt (hT.isDest hmem).mp hnd)
    have hbid := hT.broadcastId hmem hty
    have hnew : ((σ.node f.dst).latestRreq (Odr.srcKey nw.rs f.pack)).toInt <
        f.pack.rreq.broadcastId := by
      rw [hT.srcKey hmem, hbid]
      exact not_le.mp hfw
    rw [mem_forwarders, hs.node_dst hf, (nw.receive_handled σ f io).latestRreq,
      if_pos ⟨hty, hop, by omega, hself, hnew⟩, hT.srcKey hmem, Function.update_self, hbid]
    decide

end Forwarders

/-! ## One delivery -/

section Deliver

variable {nw : NamedNetwork k} (h : nw.Paved s d H σ) (hT : nw.Talk s d client σ) (hsd : s ≠ d)
  (hwf : nw.Wf σ) (hf : σ.wire[i]? = some f) (hc : nw.Current σ f)
  (hs : nw.Steps σ (.deliver i io) σ')

/-- A DATA packet offers its `rreq.hop`. -/
lemma hop_of_offer_data {o : Offer} (hty : f.pack.type = .data) (ho : nw.offerOf σ f = some o) :
    o.hop = f.pack.rreq.hop := by
  rw [offerOf, offer] at ho
  simp only [hty] at ho
  split at ho
  · obtain rfl := Option.some_injective _ ho
    rfl
  · split at ho
    · obtain rfl := Option.some_injective _ ho
      rfl
    · simp at ho

include h hT hsd hf hc hs

omit hc hs in
/-- The sender of an offer of a route to `s` knows `s`, and is `s` if the route has one hop. -/
lemma Paved.offer_source {o : Offer} (ho : nw.offerOf σ f = some o) (hkey : o.key = nw.key s)
    (hm : nw.Owns m f.hwSrc) : nw.Knows s σ m ∧ (o.hop ≤ 1 → m = s) := by
  have hmem := mem_wire_of_getElem hf
  rcases (hT.offer_cases hmem ho).2 with ⟨-, hhop, -, hty | ⟨hty, hdir⟩⟩ | ⟨hkey', -⟩
  · have hw := hT.within_of_offer hmem (by simp [hty]) ho hm
    rw [hkey] at hw
    exact ⟨knows_of_within hw, eq_of_within hT.positive hw⟩
  · obtain ⟨hH, hd⟩ := h.data f hmem hty
    obtain ⟨hk, h1⟩ := hd hdir m hm
    exact ⟨hk, fun hle => (h1 (by omega)).1⟩
  · exact absurd (key_inj (hkey.symm.trans hkey')) hsd

/-- An entry for `s` after the delivery is old or leads to the sender. -/
lemma Paved.source_cases {e' : RtblEntry} (he' : findKey (nw.key s) (σ'.node n).rtbl = some e') :
    (∃ e, findKey (nw.key s) (σ.node n).rtbl = some e ∧ e'.nextHopHwaddr = e.nextHopHwaddr ∧
        e'.hop = e.hop) ∨
      n = f.dst ∧ ∃ m, nw.Owns m e'.nextHopHwaddr ∧ nw.Knows s σ m ∧ (e'.hop ≤ 1 → m = s) := by
  rcases findKey_deliver_cases hf hs he' with h' | ⟨rfl, -, h'⟩
  · exact Or.inl ⟨e', h', rfl, rfl⟩
  rcases hc.learned_cases h' with ⟨e, ip, he, rfl⟩ | ⟨o, ho, hkey, hn, hhop, -⟩
  · exact Or.inl ⟨e, he, rfl, rfl⟩
  · obtain ⟨m, hm, -⟩ := hT.sent f (mem_wire_of_getElem hf)
    obtain ⟨hk, h1⟩ := h.offer_source hT hsd hf ho hkey hm
    exact Or.inr ⟨rfl, m, hn ▸ hm, hk, hhop ▸ h1⟩

include hwf in
lemma Paved.ahead_deliver : nw.BackRoute d s H σ' := by
  have hmem := mem_wire_of_getElem hf
  refine h.ahead.deliver_of_offer hwf hf hc hs fun o m ho hkey hm => ?_
  rcases (hT.offer_cases hmem ho).2 with ⟨hkey', -⟩ | ⟨-, -, hty | ⟨hty, -⟩⟩
  · exact absurd (key_inj (hkey'.symm.trans hkey)) hsd
  · exact Or.inr (hkey ▸ hT.within_of_offer hmem (by simp [hty]) ho hm)
  · exact Or.inl ((hop_of_offer_data hty ho).trans (h.data f hmem hty).1)

/-- A new entry for `d` comes from an RREP. -/
lemma Paved.back_deliver (n : Fin k) (hn : ∃ e, findKey (nw.key d) (σ'.node n).rtbl = some e) :
    nw.Knows s σ n := by
  have hmem := mem_wire_of_getElem hf
  obtain ⟨e', he'⟩ := hn
  rcases findKey_deliver_cases hf hs he' with h' | ⟨rfl, -, h'⟩
  · exact h.back n ⟨e', h'⟩
  rcases hc.learned_cases h' with ⟨e, ip, he, -⟩ | ⟨o, ho, hkey, -, -, hnew, -⟩
  · exact h.back _ ⟨e, he⟩
  rcases hold : findKey (nw.key d) (σ.node f.dst).rtbl with _ | e
  · rcases (hT.offer_cases hmem ho).2 with ⟨hkey', -⟩ | ⟨-, -, hty | ⟨hty, -⟩⟩
    · exact absurd (key_inj (hkey'.symm.trans hkey)) hsd
    · exact h.rrep f hmem hty
    · exact absurd hty (hnew hold)
  · exact h.back _ ⟨e, hold⟩

lemma Paved.closed_deliver (n : Fin k) (e' : RtblEntry) (m : Fin k)
    (he' : findKey (nw.key s) (σ'.node n).rtbl = some e') (hm : nw.Owns m e'.nextHopHwaddr) :
    nw.Knows s σ' m := by
  rcases h.source_cases hT hsd hf hc hs he' with ⟨e, he, hn, -⟩ | ⟨-, m', hm', hk, -⟩
  · exact (h.closed n e m he (hn ▸ hm)).of_steps hs
  · obtain rfl := hm'.unique hm
    exact hk.of_steps hs

lemma Paved.near_deliver (n : Fin k) (e' : RtblEntry)
    (he' : findKey (nw.key s) (σ'.node n).rtbl = some e') (hle : e'.hop ≤ 1) :
    nw.Owns s e'.nextHopHwaddr := by
  rcases h.source_cases hT hsd hf hc hs he' with ⟨e, he, hn, hhop⟩ | ⟨-, m, hm, -, h1⟩
  · rw [hn]
    exact h.near n e he (hhop ▸ hle)
  · exact h1 hle ▸ hm

/-- A node that hears an RREQ of `s` for the first time records it. -/
lemma Paved.heard_deliver (n : Fin k) (hnd : n ≠ d)
    (hn : ∃ e, findKey (nw.key s) (σ'.node n).rtbl = some e) : n ∈ nw.forwarders s σ' := by
  have hmem := mem_wire_of_getElem hf
  have hold : (∃ e, findKey (nw.key s) (σ.node n).rtbl = some e) → n ∈ nw.forwarders s σ' :=
    fun he => hT.mem_forwarders_deliver hf hs (h.heard n hnd he)
  obtain ⟨e', he'⟩ := hn
  rcases findKey_deliver_cases hf hs he' with h' | ⟨rfl, hop, h'⟩
  · exact hold ⟨e', h'⟩
  rcases hc.learned_cases h' with ⟨e, ip, he, -⟩ | ⟨o, ho, hkey, -, -, hnew, -⟩
  · exact hold ⟨e, he⟩
  rcases hfind : findKey (nw.key s) (σ.node f.dst).rtbl with _ | e
  · rcases (hT.offer_cases hmem ho).2 with ⟨-, -, -, hty | ⟨hty, -⟩⟩ | ⟨hkey', -⟩
    · exact hT.mem_forwarders_of_rreq hf hs hop hty (h.rreq f hmem hty) hnd
    · exact absurd hty (hnew hfind)
    · exact absurd (key_inj (hkey.symm.trans hkey')) hsd
  · exact hold ⟨e, hfind⟩

omit hs in
/-- A node that has not heard of `s` has no route to `d` with which to answer an RREQ. -/
lemma Paved.dest_mem_forwarders {e : RtblEntry} (hty : f.pack.type = .rreq) (hnd : f.dst ≠ d)
    (he : findKey (nw.key d) (nw.learned σ f).rtbl = some e) : f.dst ∈ nw.forwarders s σ := by
  have hold : ∃ e, findKey (nw.key d) (σ.node f.dst).rtbl = some e := by
    rcases hc.learned_cases he with ⟨e, ip, he, -⟩ | ⟨o, ho, hkey, -⟩
    · exact ⟨e, he⟩
    · rcases (hT.offer_cases (mem_wire_of_getElem hf) ho).2 with ⟨hkey', -⟩ | ⟨-, -, h' | ⟨h', -⟩⟩
      · exact absurd (key_inj (hkey'.symm.trans hkey)) hsd
      · exact absurd (hty.symm.trans h') (by simp)
      · exact absurd (hty.symm.trans h') (by simp)
  rcases h.back f.dst hold with hsrc | hroute
  · exact hsrc ▸ hT.source
  · exact h.heard f.dst hnd hroute

include hwf in
/-- What the receiver sends while no RREP sets off a request. -/
lemma Paved.sent_deliver (hrd : (σ.node s).routeDiscovered ≠ 0)
    (ht : t ∈ nw.transmit f.cause (nw.receive σ f io).sent) :
    (t.pack.type = .rreq → t.pack.rreq.rrepSent = 0) ∧
    (t.pack.type = .rrep → nw.Knows s σ' t.dst) ∧
    (t.pack.type = .data → t.pack.rreq.hop = H ∧ (t.pack.srcDest = 1 →
      ∀ m, nw.Owns m t.hwSrc → nw.Knows s σ' m ∧ (H ≤ 1 → m = s ∧ t.dst = d))) := by
  have hmem := mem_wire_of_getElem hf
  have hH := nw.receive_handled σ f io
  have hclosed := h.closed_deliver hT hsd hf hc hs
  have hown : nw.Owns f.dst t.hwSrc :=
    owns_of_mem_transmit (fun g hg => hH.from_of_mem hg) ht
  obtain ⟨g, hg, hpack⟩ := exists_frame_of_mem_transmit ht
  -- an RREP goes to the next hop of a route to `s`
  have hreply : ∀ {q : OdrPack} {e : RtblEntry}, f.pack.WithinMaxh →
      findKey (srcKey nw.rs f.pack) (nw.learned σ f).rtbl = some e →
      t ∈ nw.transmit f.cause (llFrames (nw.ifs f.dst) q e.nextHopHwaddr e.ifNo) →
      nw.Knows s σ' t.dst := by
    intro q e hop he ht
    rw [hT.srcKey hmem, rtbl_deliver hf hs hop] at he
    obtain ⟨m, hm⟩ := ((hwf.step hs).route _ _ e he).exists_owns
    exact hclosed f.dst e t.dst he (owns_of_mem_transmit_llFrames hm ht)
  revert hH
  generalize (nw.receive σ f io).node = s', (nw.receive σ f io).sent = fr,
    (nw.receive σ f io).unix = ux at hg ht
  intro hH
  cases hH with
  | rreqDest hop hty hsent hself e he =>
    rw [hpack, pack_of_mem_llFrames hg]
    exact ⟨fun h' => (by cases h'), fun _ => hreply hop he ht, fun h' => (by cases h')⟩
  | rreqFlood hop hty =>
    rw [hpack, pack_of_mem_bcastFrames hg]
    refine ⟨fun _ => h.rreq f hmem hty, fun h' => ?_, fun h' => ?_⟩
    · cases hty.symm.trans h'
    · cases hty.symm.trans h'
  | rreqAnswer hop hty hsent hself hnew hforced e he =>
    rw [hT.destKey hmem] at he
    have hfw := h.dest_mem_forwarders hT hsd hf hc hty
      (mt (hT.isDest hmem).mpr (mt isSelfDest_eq_one.mpr hself)) he
    rw [hT.srcKey hmem, hT.broadcastId hmem hty] at hnew
    exact absurd hnew (not_lt.mpr hfw)
  | rrepSource hop hty hself h0 =>
    exact absurd ⟨hty, hop, isSelfSrc_eq_one.mp hself, h0⟩ (hT.not_arrives hmem hrd)
  | rrepRelay hop hty hself e he =>
    rw [hpack, pack_of_mem_llFrames hg]
    exact ⟨fun h' => (by cases hty.symm.trans h'), fun _ => hreply hop he ht,
      fun h' => (by cases hty.symm.trans h')⟩
  | dataTurn hop hty =>
    rw [hpack, pack_of_mem_payloadFrames hg]
    exact ⟨fun h' => (by cases hty.symm.trans h'), fun h' => (by cases hty.symm.trans h'),
      fun _ => ⟨(h.data f hmem hty).1, fun h' => (by cases h')⟩⟩
  | dataToServer hop hty hns hself hdir =>
    obtain ⟨hhop, hdata⟩ := h.data f hmem hty
    rw [hpack, pack_of_mem_payloadFrames hg]
    refine ⟨fun h' => (by cases hty.symm.trans h'), fun h' => (by cases hty.symm.trans h'),
      fun _ => ⟨hhop, fun _ m hm => ?_⟩⟩
    obtain rfl := hown.unique hm
    have hnd := mt (hT.isDest hmem).mpr (isSelfDest_eq_zero.mp hself)
    obtain ⟨e, he, hkey, -⟩ := mem_payloadFrames.mp hg
    have hnodup : KeyNodup (nw.learned σ f).rtbl := by
      rw [rtbl_deliver hf hs hop]
      exact (hwf.step hs).nodup f.dst
    have hroute : findKey (nw.key d) (nw.learned σ f).rtbl = some e := by
      rw [← hT.destKey hmem, ← hkey]
      exact findKey_of_mem hnodup he
    rw [rtbl_deliver hf hs hop] at hroute
    obtain ⟨m, hm', -⟩ := hT.sent f hmem
    exact ⟨(h.back_deliver hT hsd hf hc hs f.dst ⟨e, hroute⟩).of_steps hs,
      fun hle => absurd ((hdata hdir m hm').2 hle).2 hnd⟩
  | dataToClient hop hty hns hself hdir =>
    rw [hpack, pack_of_mem_payloadFrames hg]
    refine ⟨fun h' => (by cases hty.symm.trans h'), fun h' => (by cases hty.symm.trans h'),
      fun _ => ⟨(h.data f hmem hty).1, fun h' => ?_⟩⟩
    exact absurd (hdir.symm.trans h') (by decide)
  | _ => simp at hg

include hwf in
/-- **A paved way stays paved**, whatever is delivered. -/
theorem Paved.deliver (hrd : (σ.node s).routeDiscovered ≠ 0) : nw.Paved s d H σ' := by
  have hwire := fun t => mem_wire_deliver (t := t) hf hs
  have hsent := fun t => h.sent_deliver (t := t) hT hsd hwf hf hc hs hrd
  exact {
    ahead := h.ahead_deliver hT hsd hwf hf hc hs
    dest := by
      obtain ⟨e, he⟩ := h.dest
      obtain ⟨e', he', -⟩ := exists_findKey_of_steps hs he
      exact ⟨e', he'⟩
    back := fun n hn => (h.back_deliver hT hsd hf hc hs n hn).of_steps hs
    closed := h.closed_deliver hT hsd hf hc hs
    heard := h.heard_deliver hT hsd hf hc hs
    near := h.near_deliver hT hsd hf hc hs
    rreq := fun t ht hty => by
      rcases hwire t ht with h' | h'
      · exact h.rreq t h' hty
      · exact (hsent t h').1 hty
    rrep := fun t ht hty => by
      rcases hwire t ht with h' | h'
      · exact (h.rrep t h' hty).of_steps hs
      · exact (hsent t h').2.1 hty
    data := fun t ht hty => by
      rcases hwire t ht with h' | h'
      · obtain ⟨hhop, hd⟩ := h.data t h' hty
        exact ⟨hhop, fun hdir m hm => ⟨(hd hdir m hm).1.of_steps hs, (hd hdir m hm).2⟩⟩
      · exact (hsent t h').2.2 hty }

end Deliver

/-! ## While the route is sought -/

/-- A route that descends leads to a node with fewer hops. -/
lemma Backed.exists_nearer {nw : NamedNetwork k} (hb : nw.Backed σ) {e : RtblEntry} (hns : n ≠ s)
    (he : findKey (nw.key s) (σ.node n).rtbl = some e) (hm : nw.Owns m e.nextHopHwaddr)
    (hms : m ≠ s) : ∃ e', findKey (nw.key s) (σ.node m).rtbl = some e' ∧ e'.hop < e.hop :=
  exists_of_within (hb.forthRoute n e m hns he hm) hms

section Seek

variable {nw : NamedNetwork k} (hk : k ≤ 10) (hsd : s ≠ d) (hwf : nw.Wf σ)
  (hf : σ.wire[i]? = some f) (hc : nw.Current σ f) (hs : nw.Steps σ (.deliver i io) σ')
  (h : nw.Seeking s d client lvl tr σ)
include hwf hf hc hs h

lemma Seeking.backed_deliver : nw.Backed σ' := by
  refine h.backed.step hwf (fun f' hf' _ => ?_) hs
  obtain rfl := Option.some_injective _ (hf.symm.trans hf')
  exact (freshFor_of_current hc (h.quiet f (mem_wire_of_getElem hf))).feasible

include hk hsd

/-- What `d` answers and what is passed on has the rest of its way left. -/
lemma Owed.deliver (ho : nw.Owed s σ) : nw.Owed s σ' := by
  intro t ht hrep
  have hmem := mem_wire_of_getElem hf
  have hfr := freshFor_of_current hc (h.quiet f hmem)
  have hb' := h.backed_deliver hwf hf hc hs
  have hr := rtbl_deliver hf hs (h.flood.withinMaxh hk hmem hfr.1)
  have hD := h.flood.discovers_deliver hk hsd hf hfr hs
  rcases mem_wire_deliver hf hs ht with h' | h'
  · obtain ⟨hle, hback⟩ := ho t h' hrep
    refine ⟨hle, fun hns => ?_⟩
    obtain ⟨e, he, hsum⟩ := hback hns
    obtain ⟨e', he', hle'⟩ := exists_findKey_of_steps hs he
    exact ⟨e', he', by omega⟩
  · obtain ⟨g, hg, hpack⟩ := exists_frame_of_mem_transmit h'
    have hnext : ∀ {q : OdrPack} {e : RtblEntry}, f.dst ≠ s →
        findKey (nw.key s) (nw.learned σ f).rtbl = some e →
        t ∈ nw.transmit f.cause (llFrames (nw.ifs f.dst) q e.nextHopHwaddr e.ifNo) →
        t.dst ≠ s → ∃ e', findKey (nw.key s) (σ'.node t.dst).rtbl = some e' ∧ e'.hop < e.hop := by
      intro q e hns he ht hts
      rw [hr] at he
      obtain ⟨m, hm⟩ := ((hwf.step hs).route _ _ e he).exists_owns
      exact hb'.exists_nearer hns he (owns_of_mem_transmit_llFrames hm ht) hts
    rw [hpack] at hrep ⊢
    generalize (nw.receive σ f io).sent = fr at hg h' hD
    generalize σ'.node f.dst = s' at hD
    cases hD with
    | answer hty hd e he =>
      obtain ⟨e₀, he₀, hle⟩ := h.flood.exists_of_rreq hmem hfr hty
      obtain rfl := Option.some_injective _ (he.symm.trans he₀)
      rw [pack_of_mem_llFrames hg]
      refine ⟨?_, fun hns => ?_⟩
      · obtain ⟨m, -, -, hp⟩ := h.talk.sent f hmem
        simp only [Placed, hty] at hp
        exact hp.2.1
      · obtain ⟨e', he', hlt⟩ := hnext (fun h' => hsd (h'.symm.trans hd)) he h' hns
        refine ⟨e', he', ?_⟩
        change e'.hop + 1 ≤ f.pack.rreq.hop
        omega
    | relay hty hns e he =>
      obtain ⟨e₀, he₀, hsum⟩ := (ho f hmem hty).2 hns
      obtain ⟨e₁, he₁, hle⟩ := exists_findKey_learned f he₀
      obtain rfl := Option.some_injective _ (he.symm.trans he₁)
      have h1 := hc.one_le_hop h.talk hmem he
      rw [pack_of_mem_llFrames hg]
      simp only [OdrPack.relayReply]
      refine ⟨by omega, fun hts => ?_⟩
      obtain ⟨e', he', hlt⟩ := hnext hns he h' hts
      exact ⟨e', he', by omega⟩
    | forward hty =>
      rw [pack_of_mem_bcastFrames hg] at hrep
      cases hty.symm.trans hrep
    | arrive hty =>
      rw [pack_of_mem_payloadFrames hg] at hrep
      cases hrep
    | again hty => simp at hg
    | late hty => simp at hg

omit hk in
/-- The request goes from `s` along a route that has no more hops than the RREQ took. -/
lemma Seeking.sent_arrive (ho : nw.Owed s σ) (ha : nw.Arrives σ f)
    (ht : t ∈ nw.transmit f.cause (nw.receive σ f io).sent) :
    t.pack.rreq.hop = f.pack.rreq.hop ∧ nw.Owns s t.hwSrc ∧
      (f.pack.rreq.hop ≤ 1 → t.dst = d) := by
  have hmem := mem_wire_of_getElem hf
  have hb' := h.backed_deliver hwf hf hc hs
  have hT' := h.talk.deliver hsd hwf hf hc hs
  have hwf' := hwf.step hs
  obtain ⟨hrep, hop, hself, hrd⟩ := ha
  have hfs := (h.talk.isSource hmem).mp hself
  have hown := owns_of_mem_transmit
    (fun g hg => (nw.receive_handled σ f io).from_of_mem hg) ht
  rw [sent_of_dataOut (nw.receive_handled σ f io) hop (.source hrep hself hrd),
    rtbl_deliver hf hs hop] at ht
  change t ∈ nw.transmit f.cause (payloadFrames (nw.ifs f.dst) (σ'.node f.dst).rtbl
    (f.pack.request (σ.node f.dst).msg) (Odr.destKey nw.rs f.pack)) at ht
  rw [h.talk.destKey hmem] at ht
  obtain ⟨hpack, e', he', hnext⟩ := exists_hop_of_mem_transmit (hwf'.nodup f.dst)
    (fun e he => (hwf'.route _ _ e he).exists_owns) ht
  refine ⟨by rw [hpack]; rfl, hfs ▸ hown, fun h1 => ?_⟩
  obtain ⟨e, he, hle⟩ := h.flood.exists_of_rrep_le hmem
    (freshFor_of_current hc (h.quiet f hmem)) hrep
  rw [rtbl_deliver hf hs hop] at he
  obtain rfl := Option.some_injective _ (he.symm.trans he')
  have hhop := (ho f hmem hrep).1
  have hnd : f.dst ≠ d := fun h' => hsd (hfs.symm.trans h')
  exact eq_of_within hT'.positive (hb'.forthRoute f.dst e t.dst hnd he hnext) (by omega)

/-- **The first RREP that arrives at `s` finds the way paved.** -/
theorem Seeking.paved (ho : nw.Owed s σ) (ha : nw.Arrives σ f) :
    nw.Paved s d f.pack.rreq.hop σ' := by
  have hmem := mem_wire_of_getElem hf
  have hfr := freshFor_of_current hc (h.quiet f hmem)
  have hb' := h.backed_deliver hwf hf hc hs
  obtain ⟨lvl', -, hF'⟩ := h.flood.deliver hk hsd hwf hf hfr hs
  obtain ⟨hrep, hop, hself, hrd⟩ := ha
  have hfs := (h.talk.isSource hmem).mp hself
  have hknows : ∀ {n}, n ∈ nw.forwarders s σ' → nw.Knows s σ' n := by
    intro n hn
    by_cases hns : n = s
    · exact Or.inl hns
    · exact Or.inr (hF'.exists_back hn hns)
  -- the route to `d` that the RREP leaves at `s`
  obtain ⟨e, he, hle⟩ := h.flood.exists_of_rrep_le hmem hfr hrep
  rw [rtbl_deliver hf hs hop] at he
  have hhop := (ho f hmem hrep).1
  refine {
    ahead := hb'.backRoute ⟨e, hfs ▸ he, hle.trans hhop⟩
    dest := ?_
    back := fun n hn => hknows (hF'.forth n hn)
    closed := fun n e' m he' hm => ?_
    heard := hF'.heard
    near := fun n e' he' h1 => ?_
    rreq := fun t ht hty => (hF'.rreq t ht hty).1.2.1
    rrep := fun t ht hty => hknows (hF'.rrep t ht hty).1
    data := fun t ht hty => ?_ }
  · obtain ⟨e₀, he₀, -⟩ := h.answer f hmem hrep
    obtain ⟨e₁, he₁, -⟩ := exists_findKey_of_steps hs he₀
    exact ⟨e₁, he₁⟩
  · obtain ⟨a, ha, hown, -⟩ := hF'.back n e' he'
    exact hown.unique hm ▸ hknows ha
  · obtain ⟨a, ha, hown, hlvl⟩ := hF'.back n e' he'
    obtain ⟨w, -, -, hlen⟩ := hF'.supported a ha
    exact w.eq_of_length_eq_zero (by omega) ▸ hown
  · rcases mem_wire_deliver hf hs ht with h' | h'
    · exact absurd hty (h.quiet t h')
    · obtain ⟨hH, hown, hnext⟩ :=
        h.sent_arrive hsd hwf hf hc hs ho ⟨hrep, hop, hself, hrd⟩ h'
      refine ⟨hH, fun _ m hm => ?_⟩
      obtain rfl := hown.unique hm
      exact ⟨Or.inl rfl, fun h1 => ⟨rfl, hnext h1⟩⟩

end Seek

end Network

end Odr
