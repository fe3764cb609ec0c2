/-
# The exchange of a request and its reply

A cold start in which DATA is delivered too: one client asks once at `s` for the node `d`, nothing
is lost, no packet meets a stale entry and the time server answers.  RREQ, RREP and DATA packets
arrive in any order.

`Talk` is what holds from the request on, whatever has been delivered.  Each packet in flight
says who may have sent it (`Placed`): `d` sends no RREQ and no request, `s` sends no RREP and no
reply, so that no route for `s` leads to `d` and no route for `d` to `s`.
-/
import Odr.Network.ClientReply
import Odr.Network.DataDirection
import Odr.Network.LoopFreedom
import Odr.Network.ColdStart

namespace Odr

open DistanceVector

/-- A DATA packet is only passed on as DATA. -/
lemma Leaves.data {rs : Resolver} {h : Host} {now : ℤ} {s : Node} {p q : OdrPack}
    {srcHw : HwAddr} {recvIf : ℤ} (hl : Leaves rs h now s p srcHw recvIf q)
    (hty : p.type = .data) : q.type = .data := by
  have hother : ∀ {y : PackType}, p.type = y → y = .data := fun h' => h'.symm.trans hty
  cases hl with
  | timeReply hop hty' => exact hty'
  | same hop hty' => exact hty'
  | request => rfl
  | destReply hop hty' => exact absurd (hother hty') (by simp)
  | reflood hop hty' => exact absurd (hother hty') (by simp)
  | tableReply hop hty' => exact absurd (hother hty') (by simp)
  | answered hop hty' => exact absurd (hother hty') (by simp)
  | relayReply hop hty' => exact absurd (hother hty') (by simp)

namespace Network

variable {k : ℕ}

section Defs

variable (nw : Network k) (s d : Fin k)

/-- The copy meets no entry that is older than `sp`. -/
def Current (σ : Net k) (f : Transit k) : Prop :=
  ∀ o ∈ nw.offerOf σ f, ∀ e ∈ findKey o.key (σ.node f.dst).rtbl, o.now - e.ts ≤ (nw.host f.dst).sp

/-- The steps of an exchange.  As in a cold start there is one request; DATA is delivered like
everything else, and the time server of `d` answers. -/
def ExchangeStep (σ : Net k) : Label k → Prop
  | .request n _ req => n = s ∧ (∀ m, (σ.node m).runningBroadcastNo = 1) ∧
      req.forcedDiscovery = 0 ∧ CanIp.cut (requestDest nw.rs (σ.node n) req) = nw.addr d
  | .deliver i io => ∀ f ∈ σ.wire[i]?, nw.Current σ f ∧
      (f.pack.type = .data → f.dst = d → io.answer.isSome)
  | .lose _ => False
  | .tick _ => True

/-- What the Unix socket of a node sends in a step. -/
def unixAt (x : Net k × Label k) : List (Fin k × UnixSend) :=
  match x.2 with
  | .request n client req => (nw.request x.1 n client req).unix.map (Prod.mk n)
  | .deliver i io =>
      ((x.1.wire[i]?).map fun f => (nw.receive x.1 f io).unix.map (Prod.mk f.dst)).getD []
  | _ => []

/-- Everything that was sent on Unix sockets, in order. -/
def unixLog (tr : List (Net k × Label k)) : List (Fin k × UnixSend) := tr.flatMap nw.unixAt

/-- The node `m` may have sent the packet. -/
def Placed (q : OdrPack) (m : Fin k) : Prop :=
  match q.type with
  | .rreq => q.rreq.broadcastId = 1 ∧ 1 ≤ q.rreq.hop ∧ m ≠ d
  | .rrep => 1 ≤ q.rreq.hop ∧ 1 ≤ q.rrep.hop ∧ m ≠ s
  | .data => q.WithinMaxh ∧ 1 ≤ q.rreq.hop ∧ (q.srcDest = 1 ∧ m ≠ d ∨ q.srcDest = -1 ∧ m ≠ s)
  | .other _ => False

/-- The copy was sent by a node that may have sent it, within the hops it promises. -/
def Sent (σ : Net k) (f : Transit k) : Prop :=
  ∃ m, nw.Owns m f.hwSrc ∧ nw.Promise (nw.tables σ) m f.pack ∧ Placed s d f.pack m

/-- What holds from the request on. -/
structure Talk (client : UnAddr) (σ : Net k) : Prop where
  src : ∀ f ∈ σ.wire, f.pack.srcCanIpStr = nw.addr s
  dest : ∀ f ∈ σ.wire, f.pack.destCanIpStr = nw.addr d
  taken : (σ.node s).runningBroadcastNo ≠ 1
  source : s ∈ nw.forwarders s σ
  client : (σ.node s).alClientAddr = some client
  positive : ∀ n key e, findKey key (σ.node n).rtbl = some e → 1 ≤ e.hop
  sent : ∀ f ∈ σ.wire, nw.Sent s d σ f
  back : ∀ n e, findKey (nw.key s) (σ.node n).rtbl = some e → ¬nw.Owns d e.nextHopHwaddr
  forth : ∀ n e, findKey (nw.key d) (σ.node n).rtbl = some e → ¬nw.Owns s e.nextHopHwaddr

end Defs

variable {nw : Network k} {s d : Fin k} {client : UnAddr} {σ σ' : Net k} {f : Transit k}
  {i : ℕ} {io : UnixIo}

lemma freshFor_of_current (hc : nw.Current σ f) (hty : f.pack.type ≠ .data) :
    nw.FreshFor σ f := ⟨hty, hc⟩

/-- An update that meets no stale entry keeps what is under a key, or records the sender under
the key of the offer with the hops offered, which are fewer than before. -/
lemma Current.learned_cases (hc : nw.Current σ f) {key : ℤ} {e' : RtblEntry}
    (he' : findKey key (nw.learned σ f).rtbl = some e') :
    (∃ e ip, findKey key (σ.node f.dst).rtbl = some e ∧ e' = e.withIp ip) ∨
      ∃ o, nw.offerOf σ f = some o ∧ o.key = key ∧ e'.nextHopHwaddr = f.hwSrc ∧ e'.hop = o.hop ∧
        (findKey key (σ.node f.dst).rtbl = none → f.pack.type ≠ .data) ∧
        ∀ e, findKey key (σ.node f.dst).rtbl = some e → o.hop < e.hop := by
  rcases findKey_updateRtblEntry_cases _ he' with h | ⟨o, ho, rfl, hn, -, -, hty, had⟩
  · exact Or.inl h
  refine Or.inr ⟨o, ho, rfl, hn, ?_⟩
  generalize hfind : findKey o.key (σ.node f.dst).rtbl = oe at had hty
  generalize e'.hop = x at had ⊢
  cases had with
  | new => exact ⟨rfl, hty, by simp⟩
  | better e hfresh hlt =>
    refine ⟨rfl, hty, fun e₁ he₁ => ?_⟩
    obtain rfl := Option.some_injective _ he₁
    exact hlt
  | stale e hstale =>
    have hfresh := hc o ho e hfind
    exact absurd hstale (by omega)

/-- An RREP leaves an entry for `d` with at most the hops it offers. -/
lemma Flood.exists_of_rrep_le {lvl : Fin k → ℤ} (hF : nw.Flood s d lvl σ) (hf : f ∈ σ.wire)
    (hfr : nw.FreshFor σ f) (hty : f.pack.type = .rrep) :
    ∃ e, findKey (nw.key d) (nw.learned σ f).rtbl = some e ∧ e.hop ≤ f.pack.rrep.hop := by
  have ho : nw.offerOf σ f = _ := offerOf_rrep hty
  obtain ⟨e, he, hle⟩ := exists_findKey_offer (nw.host f.dst).sp (t := (σ.node f.dst).rtbl) ho
    (by simp [hty])
  have hkey : nw.key d = (destOffer nw.rs σ.clock f.pack f.hwSrc f.ifindex f.pack.rreq.hop
    f.pack.rrep.hop).key := (hF.destKey hf).symm
  refine ⟨e, hkey ▸ he, hle fun e₀ he₀ hst => ?_⟩
  have hfresh := hfr.2 _ ho e₀ he₀
  exact absurd hst (by omega)

/-! ## Offers -/

lemma Talk.srcKey (hT : nw.Talk s d client σ) (hf : f ∈ σ.wire) :
    srcKey nw.rs f.pack = nw.key s := congrArg nw.idx (hT.src f hf)

lemma Talk.destKey (hT : nw.Talk s d client σ) (hf : f ∈ σ.wire) :
    destKey nw.rs f.pack = nw.key d := congrArg nw.idx (hT.dest f hf)

lemma Talk.isSource {nw : NamedNetwork k} (hT : nw.Talk s d client σ) (hf : f ∈ σ.wire) :
    f.pack.srcCanIpStr = nw.addr f.dst ↔ f.dst = s := by
  rw [hT.src f hf]
  exact ⟨fun h => (addr_inj h).symm, fun h => by rw [h]⟩

lemma Talk.isDest {nw : NamedNetwork k} (hT : nw.Talk s d client σ) (hf : f ∈ σ.wire) :
    f.pack.destCanIpStr = nw.addr f.dst ↔ f.dst = d := by
  rw [hT.dest f hf]
  exact ⟨fun h => (addr_inj h).symm, fun h => by rw [h]⟩

/-- What a packet offers is a route to `s` through a node other than `d`, or one to `d` through
a node other than `s`. -/
lemma Talk.offer_cases (hT : nw.Talk s d client σ) (hf : f ∈ σ.wire) {o : Offer}
    (ho : nw.offerOf σ f = some o) :
    1 ≤ o.hop ∧
      ((o.key = nw.key s ∧ o.hop = f.pack.rreq.hop ∧ ¬nw.Owns d f.hwSrc ∧
          (f.pack.type = .rreq ∨ f.pack.type = .data ∧ f.pack.srcDest = 1)) ∨
        (o.key = nw.key d ∧ ¬nw.Owns s f.hwSrc ∧
          (f.pack.type = .rrep ∨ f.pack.type = .data ∧ f.pack.srcDest = -1))) := by
  obtain ⟨m, hm, -, hp⟩ := hT.sent f hf
  have hne : ∀ {x : Fin k}, m ≠ x → ¬nw.Owns x f.hwSrc := fun hmx hx => hmx (hm.unique hx)
  have hsrc := hT.srcKey hf
  have hdst := hT.destKey hf
  rw [Placed] at hp
  rw [offerOf, offer] at ho
  rcases hty : f.pack.type with _ | _ | _ | n
  · simp only [hty, Option.some.injEq] at hp ho
    subst ho
    exact ⟨hp.2.1, Or.inl ⟨hsrc, rfl, hne hp.2.2, Or.inl rfl⟩⟩
  · simp only [hty, Option.some.injEq] at hp ho
    subst ho
    exact ⟨hp.2.1, Or.inr ⟨hdst, hne hp.2.2, Or.inl rfl⟩⟩
  · simp only [hty] at hp ho
    obtain ⟨-, hhop, hdir⟩ := hp
    rcases hdir with ⟨h1, hmd⟩ | ⟨h1, hms⟩
    · rw [if_pos h1, Option.some.injEq] at ho
      subst ho
      exact ⟨hhop, Or.inl ⟨hsrc, rfl, hne hmd, Or.inr ⟨rfl, h1⟩⟩⟩
    · rw [if_neg (by rw [h1]; decide), if_pos h1, Option.some.injEq] at ho
      subst ho
      exact ⟨hhop, Or.inr ⟨hdst, hne hms, Or.inr ⟨rfl, h1⟩⟩⟩
  · simp only [hty] at hp

/-- What a DATA packet in flight is like. -/
lemma Talk.data (hT : nw.Talk s d client σ) (hf : f ∈ σ.wire) (hty : f.pack.type = .data) :
    f.pack.WithinMaxh ∧ 1 ≤ f.pack.rreq.hop ∧ (f.pack.srcDest = 1 ∨ f.pack.srcDest = -1) := by
  obtain ⟨m, -, -, hp⟩ := hT.sent f hf
  simp only [Placed, hty] at hp
  obtain ⟨hop, hhop, hdir⟩ := hp
  exact ⟨hop, hhop, hdir.imp (fun h => h.1) fun h => h.1⟩

/-! ## One delivery -/

lemma Current.one_le_hop (hc : nw.Current σ f) (hT : nw.Talk s d client σ) (hf : f ∈ σ.wire)
    {key : ℤ} {e' : RtblEntry} (he' : findKey key (nw.learned σ f).rtbl = some e') :
    1 ≤ e'.hop := by
  rcases hc.learned_cases he' with ⟨e, ip, he, rfl⟩ | ⟨o, ho, -, -, hhop, -⟩
  · exact hT.positive _ _ e he
  · rw [hhop]
    exact (hT.offer_cases hf ho).1

/-- The receiver of a copy may send what it sends. -/
lemma Talk.placed_of_sent {nw : NamedNetwork k} (hT : nw.Talk s d client σ) (hsd : s ≠ d)
    (hf : f ∈ σ.wire) (hc : nw.Current σ f) {g : Frame} (hg : g ∈ (nw.receive σ f io).sent) :
    Placed s d g.pack f.dst := by
  obtain ⟨m, -, -, hp⟩ := hT.sent f hf
  have hsrc := hT.isSource hf
  have hdest := hT.isDest hf
  have hpos : ∀ {key e}, findKey key (nw.learned σ f).rtbl = some e → 1 ≤ e.hop :=
    fun h => hc.one_le_hop hT hf h
  have H := nw.receive_handled σ f io
  revert H hg
  generalize (nw.receive σ f io).node = s', (nw.receive σ f io).sent = fr,
    (nw.receive σ f io).unix = ux
  intro hg H
  cases H with
  | rreqDest _ hty _ hself =>
    have hd := hdest.mp (isSelfDest_eq_one.mp hself)
    simp only [Placed, hty] at hp
    rw [pack_of_mem_llFrames hg]
    exact ⟨hp.2.1, le_rfl, fun h => hsd (h.symm.trans hd)⟩
  | rreqFlood _ hty _ hself =>
    have hd := mt hdest.mpr (mt isSelfDest_eq_one.mpr hself)
    simp only [Placed, hty] at hp
    rw [pack_of_mem_bcastFrames hg]
    simp only [Placed, OdrPack.reflood, hty]
    exact ⟨hp.1, by omega, hd⟩
  | rreqAnswer _ hty _ hself hnew _ e he =>
    have hd := mt hdest.mpr (mt isSelfDest_eq_one.mpr hself)
    simp only [Placed, hty] at hp
    rcases List.mem_append.mp hg with hg | hg
    · -- `s` has recorded its own RREQ, so it is another node that answers
      have hs : f.dst ≠ s := by
        intro h
        have hsource := mem_forwarders.mp hT.source
        rw [hT.srcKey hf, h, hp.1] at hnew
        omega
      rw [pack_of_mem_llFrames hg]
      simp only [Placed, OdrPack.tableReply]
      have h1 := hpos he
      exact ⟨by omega, by omega, hs⟩
    · rw [pack_of_mem_bcastFrames hg]
      simp only [Placed, OdrPack.answered]
      exact ⟨hp.1, by omega, hd⟩
  | rrepSource hop hty hself =>
    have hs := hsrc.mp (isSelfSrc_eq_one.mp hself)
    simp only [Placed, hty] at hp
    rw [pack_of_mem_payloadFrames hg]
    exact ⟨hop, hp.1, Or.inl ⟨rfl, fun h => hsd (hs.symm.trans h)⟩⟩
  | rrepRelay _ hty hself =>
    have hs := mt hsrc.mpr (mt isSelfSrc_eq_one.mpr hself)
    simp only [Placed, hty] at hp
    rw [pack_of_mem_llFrames hg]
    simp only [Placed, OdrPack.relayReply, hty]
    exact ⟨hp.1, by omega, hs⟩
  | dataTurn hop hty hself =>
    have hs := mt hsrc.mpr (isSelfSrc_eq_zero.mp hself)
    simp only [Placed, hty] at hp
    rw [pack_of_mem_payloadFrames hg]
    simp only [Placed, OdrPack.timeReply, hty]
    exact ⟨hop, hp.2.1, Or.inr ⟨trivial, hs⟩⟩
  | dataToServer hop hty hs hself hdir =>
    have hd := mt hdest.mpr (isSelfDest_eq_zero.mp hself)
    simp only [Placed, hty] at hp
    rw [pack_of_mem_payloadFrames hg]
    simp only [Placed, hty]
    exact ⟨hop, hp.2.1, Or.inl ⟨hdir, hd⟩⟩
  | dataToClient hop hty hself hd hdir =>
    have hs := mt hsrc.mpr (isSelfSrc_eq_zero.mp hself)
    simp only [Placed, hty] at hp
    rw [pack_of_mem_payloadFrames hg]
    simp only [Placed, hty]
    exact ⟨hop, hp.2.1, Or.inr ⟨hdir, hs⟩⟩
  | _ => simp at hg

section Deliver

variable {nw : NamedNetwork k} (hT : nw.Talk s d client σ) (hsd : s ≠ d) (hwf : nw.Wf σ)
  (hf : σ.wire[i]? = some f) (hc : nw.Current σ f) (hs : nw.Steps σ (.deliver i io) σ')
include hT hf hc hs

omit hT hc in
/-- An entry after a delivery is one of the node's own, or the receiver has learned it. -/
lemma findKey_deliver_cases {n : Fin k} {key : ℤ} {e' : RtblEntry}
    (he' : findKey key (σ'.node n).rtbl = some e') :
    findKey key (σ.node n).rtbl = some e' ∨
      (n = f.dst ∧ f.pack.WithinMaxh ∧ findKey key (nw.learned σ f).rtbl = some e') := by
  by_cases hn : n = f.dst
  · subst hn
    rw [hs.node_dst hf, rtbl_receive] at he'
    split at he'
    · next hop => exact Or.inr ⟨rfl, hop, he'⟩
    · exact Or.inl he'
  · rw [hs.node_ne hf hn] at he'
    exact Or.inl he'

include hsd in
/-- Entries for `s` do not come to lead to `d`. -/
lemma Talk.back_deliver (n : Fin k) (e' : RtblEntry)
    (he' : findKey (nw.key s) (σ'.node n).rtbl = some e') : ¬nw.Owns d e'.nextHopHwaddr := by
  rcases findKey_deliver_cases hf hs he' with h | ⟨rfl, -, h⟩
  · exact hT.back n e' h
  rcases hc.learned_cases h with ⟨e, ip, he, rfl⟩ | ⟨o, ho, hkey, hn, -⟩
  · exact hT.back _ e he
  rw [hn]
  rcases (hT.offer_cases (mem_wire_of_getElem hf) ho).2 with ⟨-, -, hd, -⟩ | ⟨hkey', -⟩
  · exact hd
  · exact absurd (key_inj (hkey.symm.trans hkey')) hsd

include hsd in
/-- Entries for `d` do not come to lead to `s`. -/
lemma Talk.forth_deliver (n : Fin k) (e' : RtblEntry)
    (he' : findKey (nw.key d) (σ'.node n).rtbl = some e') : ¬nw.Owns s e'.nextHopHwaddr := by
  rcases findKey_deliver_cases hf hs he' with h | ⟨rfl, -, h⟩
  · exact hT.forth n e' h
  rcases hc.learned_cases h with ⟨e, ip, he, rfl⟩ | ⟨o, ho, hkey, hn, -⟩
  · exact hT.forth _ e he
  rw [hn]
  rcases (hT.offer_cases (mem_wire_of_getElem hf) ho).2 with ⟨hkey', -⟩ | ⟨-, hs', -⟩
  · exact absurd (key_inj (hkey'.symm.trans hkey)) hsd
  · exact hs'

omit hc in
/-- `s` does not mark its own RREQ again. -/
lemma Talk.source_deliver : s ∈ nw.forwarders s σ' := by
  have hsource := mem_forwarders.mp hT.source
  have hmem := mem_wire_of_getElem hf
  by_cases hn : s = f.dst
  · rw [mem_forwarders, hn, hs.node_dst hf, (nw.receive_handled σ f io).latestRreq]
    split
    · next h =>
      obtain ⟨m, -, -, hp⟩ := hT.sent f hmem
      simp only [Placed, h.1] at hp
      have hlt := h.2.2.2.2
      rw [hp.1, hT.srcKey hmem, ← hn] at hlt
      omega
    · rw [← hn]
      exact hsource
  · rw [mem_forwarders, hs.node_ne hf hn]
    exact hsource

include hsd hwf

/-- The copies that the receiver sends. -/
lemma Talk.sent_of_receive {t : Transit k}
    (ht : t ∈ nw.transmit f.cause (nw.receive σ f io).sent) : nw.Sent s d σ' t := by
  have hmem := mem_wire_of_getElem hf
  have H := nw.receive_handled σ f io
  have hwf' := hwf.step hs
  obtain ⟨g, hg, j, -, -, -, hsrc, hpack, -⟩ := mem_transmit.mp ht
  obtain ⟨a, ha, hga, -⟩ := H.from_of_mem hg
  have hr : f.pack.WithinMaxh → (σ'.node f.dst).rtbl = (nw.learned σ f).rtbl := by
    intro hop
    rw [hs.node_dst hf, rtbl_receive, if_pos hop]
  refine ⟨f.dst, ⟨a, ha, by rw [hsrc, hga]⟩, ?_, ?_⟩
  · rw [hpack]
    by_cases hty : f.pack.type = .data
    · exact promise_of_data ((H.leaves hg).data hty)
    · exact promise_of_leaves hwf' hr (fun _ => (freshFor_of_current hc hty).feasible)
        (H.leaves hg)
  · rw [hpack]
    exact hT.placed_of_sent hsd hmem hc hg

/-- **What holds from the request on is kept by every delivery** of a copy that meets no stale
entry, DATA included. -/
theorem Talk.deliver : nw.Talk s d client σ' := by
  have hmem := mem_wire_of_getElem hf
  have H := nw.receive_handled σ f io
  have hT' := improves_of_steps hwf hs
  have hpack : ∀ t ∈ σ'.wire, t ∈ σ.wire ∨ ∃ g ∈ (nw.receive σ f io).sent, t.pack = g.pack := by
    intro t ht
    cases hs.wire ht with
    | old h => exact Or.inl h
    | request n client req hl h => simp at hl
    | deliver i' io' f' hl hf' h =>
      cases hl
      obtain rfl := Option.some_injective _ (hf.symm.trans hf')
      exact Or.inr (exists_frame_of_mem_transmit h)
  exact {
    src := fun t ht => by
      rcases hpack t ht with h | ⟨g, hg, h⟩
      · exact hT.src t h
      · rw [h, (H.leaves hg).src]
        exact hT.src f hmem
    dest := fun t ht => by
      rcases hpack t ht with h | ⟨g, hg, h⟩
      · exact hT.dest t h
      · rw [h, (H.leaves hg).dest]
        exact hT.dest f hmem
    taken := by
      by_cases hsf : s = f.dst
      · rw [hsf, hs.node_dst hf, broadcastNo_of_handled H, ← hsf]
        exact hT.taken
      · rw [hs.node_ne hf hsf]
        exact hT.taken
    source := hT.source_deliver hf hs
    client := by
      by_cases hsf : s = f.dst
      · rw [hsf, hs.node_dst hf, alClientAddr_of_handled H, ← hsf]
        exact hT.client
      · rw [hs.node_ne hf hsf]
        exact hT.client
    positive := fun n key e he => by
      rcases findKey_deliver_cases hf hs he with h | ⟨rfl, -, h⟩
      · exact hT.positive n key e h
      · exact hc.one_le_hop hT hmem h
    sent := fun t ht => by
      cases hs.wire ht with
      | old h =>
        obtain ⟨m, hm, hp, hpl⟩ := hT.sent t h
        exact ⟨m, hm, hp.improve hT', hpl⟩
      | request n client req hl h => simp at hl
      | deliver i' io' f' hl hf' h =>
        cases hl
        obtain rfl := Option.some_injective _ (hf.symm.trans hf')
        exact hT.sent_of_receive hsd hwf hf hc hs h
    back := hT.back_deliver hsd hf hc hs
    forth := hT.forth_deliver hsd hf hc hs }

end Deliver

end Network

end Odr
