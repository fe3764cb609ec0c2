/-
# Cold start

The runs of a network whose daemons have just started, in which one client asks once, at the
node `s` for the node `d`, nothing is lost, DATA stays undelivered and no entry grows stale.

`Flood` is the invariant of these runs.  A node has *forwarded* the RREQ when its record for
`s` has reached the id 1, which `s` itself has from the start; the level of a node is the hop
count of the copy it forwarded.  The invariant says of every copy in flight what it carries and
that its sender has forwarded, of every entry where it leads, and that nothing is missing: the
neighbours of a node that has forwarded are reached, and once the RREQ has come to `d` an RREP
is on its way to `s` or has arrived there.  `Discovers` lists what is left of the paths through
`process_pack` under the invariant.
-/
import Odr.Lib.Flooding
import Odr.Network.LoopFreedom
import Odr.Network.Origination
import Odr.Network.Reflood
import Odr.Network.ReplyDirection

namespace Odr

open Flooding

lemma forcedDiscovery_of_handled {rs : Resolver} {h : Host} {io : UnixIo} {now : ℤ}
    {s s' : Node} {p : OdrPack} {srcHw : HwAddr} {recvIf : ℤ} {fr : List Frame}
    {ux : List UnixSend} (H : Handled rs h io now s p srcHw recvIf s' fr ux) :
    s'.forcedDiscovery = s.forcedDiscovery := by
  cases H <;> rfl

namespace Network

variable {k : ℕ}

section Defs

variable (nw : Network k) (s d : Fin k)

/-- The steps of a cold start.  The request is taken while every node still has the broadcast
number with which it starts, so that there is only one. -/
def ColdStep (σ : Net k) : Label k → Prop
  | .request n _ req => n = s ∧ (∀ m, (σ.node m).runningBroadcastNo = 1) ∧
      req.forcedDiscovery = 0 ∧ CanIp.cut (requestDest nw.rs (σ.node n) req) = nw.addr d
  | .deliver i _ => ∀ f ∈ σ.wire[i]?, nw.FreshFor σ f
  | .lose _ => False
  | .tick _ => True

/-- The nodes that have recorded the RREQ of `s`. -/
def forwarders (σ : Net k) : Set (Fin k) :=
  {n | 1 ≤ ((σ.node n).latestRreq (nw.key s)).toInt}

/-- The node is `s`, or has an entry for `s` with at most `x` hops, or a copy of the RREQ that
has travelled at most `x` hops is on its way to it. -/
def Reached (σ : Net k) (n : Fin k) (x : ℤ) : Prop :=
  n = s ∨ (∃ e ∈ findKey (nw.key s) (σ.node n).rtbl, e.hop ≤ x) ∨
    ∃ f ∈ σ.wire, f.dst = n ∧ f.pack.type = .rreq ∧ f.pack.rreq.hop ≤ x

/-- The invariant of a cold start after the request. -/
structure Flood (lvl : Fin k → ℤ) (σ : Net k) : Prop where
  taken : (σ.node s).runningBroadcastNo ≠ 1
  forced : ∀ n, (σ.node n).forcedDiscovery = 0
  source : s ∈ nw.forwarders s σ
  dest : d ∉ nw.forwarders s σ
  supported : Supported nw.graph s (nw.forwarders s σ) lvl
  /-- What every packet in flight carries. -/
  pack : ∀ f ∈ σ.wire, f.pack.srcCanIpStr = nw.addr s ∧ f.pack.destCanIpStr = nw.addr d ∧
    ∀ n, f.pack.type ≠ .other n
  rreq : ∀ f ∈ σ.wire, f.pack.type = .rreq → (f.pack.rreq.broadcastId = 1 ∧
    f.pack.rreq.rrepSent = 0 ∧ f.pack.rrep.hop = -1) ∧
    ∃ a ∈ nw.forwarders s σ, nw.Owns a f.hwSrc ∧ f.pack.rreq.hop = lvl a + 1
  /-- An RREP is on its way to a node that has forwarded, with hops to spare for the way on. -/
  rrep : ∀ f ∈ σ.wire, f.pack.type = .rrep → f.dst ∈ nw.forwarders s σ ∧
    f.pack.rreq.hop ≤ 9 ∧ f.pack.rrep.hop ≤ 9 ∧
    (f.dst ≠ s → ∃ e ∈ findKey (nw.key s) (σ.node f.dst).rtbl, f.pack.rrep.hop + e.hop ≤ 9)
  /-- Entries for `s` lead to nodes that have forwarded. -/
  back : ∀ n, ∀ e ∈ findKey (nw.key s) (σ.node n).rtbl,
    ∃ a ∈ nw.forwarders s σ, nw.Owns a e.nextHopHwaddr ∧ e.hop = lvl a + 1
  /-- Nodes other than `d` that have heard the RREQ have forwarded it. -/
  heard : ∀ n, n ≠ d → (∃ e, findKey (nw.key s) (σ.node n).rtbl = some e) →
    n ∈ nw.forwarders s σ
  known : ∀ n ∈ nw.forwarders s σ, n ≠ s →
    ∃ e ∈ findKey (nw.key s) (σ.node n).rtbl, e.hop ≤ lvl n
  /-- Only nodes that have forwarded have entries for `d`. -/
  forth : ∀ n, (∃ e, findKey (nw.key d) (σ.node n).rtbl = some e) → n ∈ nw.forwarders s σ
  spread : ∀ a ∈ nw.forwarders s σ, ∀ n, nw.graph.Adj a n → nw.Reached s σ n (lvl a + 1)
  /-- A copy has gone to every interface on its link. -/
  copies : ∀ f ∈ σ.wire, f.pack.type = .rreq → ∀ n, ∀ j ∈ nw.ifs n,
    nw.link j.sllAddr = nw.link f.hwSrc → nw.Reached s σ n f.pack.rreq.hop
  /-- The answer of `d` is not lost. -/
  reply : (∃ e, findKey (nw.key s) (σ.node d).rtbl = some e) →
    (∃ f ∈ σ.wire, f.pack.type = .rrep) ∨ (σ.node s).routeDiscovered ≠ 0
  arrived : (σ.node s).routeDiscovered ≠ 0 →
    ∃ e, findKey (nw.key d) (σ.node s).rtbl = some e

/-- The paths through `process_pack` in a cold start. -/
inductive Discovers (σ : Net k) (f : Transit k) : Node → List Frame → Prop
  | answer (hty : f.pack.type = .rreq) (hd : f.dst = d) (e : RtblEntry)
      (he : findKey (nw.key s) (nw.learned σ f).rtbl = some e) :
      Discovers σ f (nw.learned σ f)
        (llFrames (nw.ifs f.dst) f.pack.destReply e.nextHopHwaddr e.ifNo)
  | again (hty : f.pack.type = .rreq) (hd : f.dst ≠ d) (hfw : f.dst ∈ nw.forwarders s σ) :
      Discovers σ f (nw.learned σ f) []
  | forward (hty : f.pack.type = .rreq) (hd : f.dst ≠ d) (hfw : f.dst ∉ nw.forwarders s σ) :
      Discovers σ f ((nw.learned σ f).mark (nw.key s) 1)
        (bcastFrames (nw.ifs f.dst) f.pack.reflood f.ifindex)
  | arrive (hty : f.pack.type = .rrep) (hs : f.dst = s) (hrd : (σ.node s).routeDiscovered = 0) :
      Discovers σ f { nw.learned σ f with routeDiscovered := 1 }
        (payloadFrames (nw.ifs f.dst) (nw.learned σ f).rtbl
          (f.pack.request (σ.node f.dst).msg) (nw.key d))
  | late (hty : f.pack.type = .rrep) (hs : f.dst = s) (hrd : (σ.node s).routeDiscovered ≠ 0) :
      Discovers σ f (nw.learned σ f) []
  | relay (hty : f.pack.type = .rrep) (hs : f.dst ≠ s) (e : RtblEntry)
      (he : findKey (nw.key s) (nw.learned σ f).rtbl = some e) :
      Discovers σ f (nw.learned σ f)
        (llFrames (nw.ifs f.dst) f.pack.relayReply e.nextHopHwaddr e.ifNo)

end Defs

variable {nw : Network k} {s d : Fin k} {lvl : Fin k → ℤ} {σ σ' : Net k} {f : Transit k}

instance (σ : Net k) (l : Label k) : Decidable (nw.ColdStep s d σ l) :=
  match l with
  | .request _ _ _ => inferInstanceAs (Decidable (_ ∧ _))
  | .deliver i _ => inferInstanceAs (Decidable (∀ f ∈ σ.wire[i]?, _))
  | .lose _ => .isFalse id
  | .tick _ => .isTrue trivial

lemma mem_forwarders {n : Fin k} :
    n ∈ nw.forwarders s σ ↔ 1 ≤ ((σ.node n).latestRreq (nw.key s)).toInt := Iff.rfl

/-! ## Hop counts stay below the limit -/

lemma Flood.lvl_le (hF : nw.Flood s d lvl σ) (hk : k ≤ 10) {n : Fin k}
    (hn : n ∈ nw.forwarders s σ) : lvl n ≤ 8 := by
  have h := hF.supported.add_two_le_card hF.dest hn
  rw [Fintype.card_fin] at h
  omega

lemma Flood.rreq_hop_le (hF : nw.Flood s d lvl σ) (hk : k ≤ 10) (hf : f ∈ σ.wire)
    (hty : f.pack.type = .rreq) : f.pack.rreq.hop ≤ 9 := by
  obtain ⟨-, a, ha, -, hhop⟩ := hF.rreq f hf hty
  have h := hF.lvl_le hk ha
  omega

lemma Flood.withinMaxh (hF : nw.Flood s d lvl σ) (hk : k ≤ 10) (hf : f ∈ σ.wire)
    (hty : f.pack.type ≠ .data) : f.pack.WithinMaxh := by
  have hbound : f.pack.rreq.hop ≤ 9 ∧ f.pack.rrep.hop ≤ 9 := by
    rcases hp : f.pack.type with _ | _ | _ | n
    · have hrep := (hF.rreq f hf hp).1.2.2
      exact ⟨hF.rreq_hop_le hk hf hp, by omega⟩
    · obtain ⟨-, h₁, h₂, -⟩ := hF.rrep f hf hp
      exact ⟨h₁, h₂⟩
    · exact absurd hp hty
    · exact absurd hp ((hF.pack f hf).2.2 n)
  have hmax : (9 : ℤ) ≤ maxh := by decide
  exact ⟨hbound.1.trans hmax, hbound.2.trans hmax⟩

/-! ## What a fresh packet writes into the table -/

/-- While nothing is stale an update records the hop count that the packet offers. -/
lemma FreshFor.hop_of_adoption (hfr : nw.FreshFor σ f) {o : Offer}
    (ho : nw.offerOf σ f = some o) {x : ℤ}
    (had : Adoption (nw.host f.dst).sp o (findKey o.key (σ.node f.dst).rtbl) x) : x = o.hop := by
  generalize hfind : findKey o.key (σ.node f.dst).rtbl = oe at had
  cases had with
  | new => rfl
  | better e hfresh hlt => rfl
  | stale e hstale =>
    have hle := hfr.2 o ho e hfind
    exact absurd hstale (by omega)

lemma exists_findKey_learned (f : Transit k) {key : ℤ} {e : RtblEntry}
    (he : findKey key (σ.node f.dst).rtbl = some e) :
    ∃ e', findKey key (nw.learned σ f).rtbl = some e' ∧ e'.hop ≤ e.hop :=
  exists_findKey_updateRtblEntry _ he

lemma offerOf_rreq (hty : f.pack.type = .rreq) : nw.offerOf σ f =
    some (srcOffer nw.rs σ.clock f.pack f.hwSrc f.ifindex f.pack.rreq.hop f.pack.rreq.hop) := by
  rw [offerOf, offer, hty]

lemma offerOf_rrep (hty : f.pack.type = .rrep) : nw.offerOf σ f =
    some (destOffer nw.rs σ.clock f.pack f.hwSrc f.ifindex f.pack.rreq.hop f.pack.rrep.hop) := by
  rw [offerOf, offer, hty]

lemma Flood.srcKey (hF : nw.Flood s d lvl σ) (hf : f ∈ σ.wire) :
    srcKey nw.rs f.pack = nw.key s := congrArg nw.idx (hF.pack f hf).1

lemma Flood.destKey (hF : nw.Flood s d lvl σ) (hf : f ∈ σ.wire) :
    destKey nw.rs f.pack = nw.key d := congrArg nw.idx (hF.pack f hf).2.1

/-- An RREQ leaves an entry for `s` with at most the hops it offers. -/
lemma Flood.exists_of_rreq (hF : nw.Flood s d lvl σ) (hf : f ∈ σ.wire) (hfr : nw.FreshFor σ f)
    (hty : f.pack.type = .rreq) :
    ∃ e ∈ findKey (nw.key s) (nw.learned σ f).rtbl, e.hop ≤ f.pack.rreq.hop := by
  have ho : nw.offerOf σ f = _ := offerOf_rreq hty
  obtain ⟨e, he, hle⟩ := exists_findKey_offer (nw.host f.dst).sp (t := (σ.node f.dst).rtbl) ho
    (by simp [hty])
  have hkey : nw.key s = (srcOffer nw.rs σ.clock f.pack f.hwSrc f.ifindex f.pack.rreq.hop
    f.pack.rreq.hop).key := (hF.srcKey hf).symm
  refine ⟨e, hkey ▸ he, hle fun e₀ he₀ hst => ?_⟩
  have hfresh := hfr.2 _ ho e₀ he₀
  exact absurd hst (by omega)

/-- An entry for `s` is old or leads to the sender of an RREQ. -/
lemma Flood.learned_back {nw : NamedNetwork k} (hF : nw.Flood s d lvl σ) (hsd : s ≠ d)
    (hf : f ∈ σ.wire) (hfr : nw.FreshFor σ f) {e' : RtblEntry}
    (he' : findKey (nw.key s) (nw.learned σ f).rtbl = some e') :
    (∃ e ip, findKey (nw.key s) (σ.node f.dst).rtbl = some e ∧ e' = e.withIp ip) ∨
      (f.pack.type = .rreq ∧ e'.nextHopHwaddr = f.hwSrc ∧ e'.hop = f.pack.rreq.hop) := by
  rcases findKey_updateRtblEntry_cases _ he' with h | ⟨o, ho, hkey, hn, -, -, -, had⟩
  · exact Or.inl h
  have hhop := hfr.hop_of_adoption ho (hkey ▸ had)
  rcases hty : f.pack.type with _ | _ | _ | n
  · have heq := Option.some_injective _ (ho.symm.trans (offerOf_rreq hty))
    exact Or.inr ⟨rfl, hn, by rw [hhop, heq]; rfl⟩
  · have heq := Option.some_injective _ (ho.symm.trans (offerOf_rrep hty))
    have hdk : o.key = nw.key d := by rw [heq]; exact hF.destKey hf
    exact absurd (key_inj (hkey.symm.trans hdk)) hsd
  · exact absurd hty hfr.1
  · exact absurd hty ((hF.pack f hf).2.2 n)

/-- An entry for `d` is old or comes from an RREP. -/
lemma Flood.learned_forth {nw : NamedNetwork k} (hF : nw.Flood s d lvl σ) (hsd : s ≠ d)
    (hf : f ∈ σ.wire) (hfr : nw.FreshFor σ f) {e' : RtblEntry}
    (he' : findKey (nw.key d) (nw.learned σ f).rtbl = some e') :
    (∃ e, findKey (nw.key d) (σ.node f.dst).rtbl = some e) ∨ f.pack.type = .rrep := by
  rcases findKey_updateRtblEntry_cases _ he' with ⟨e, ip, he, -⟩ | ⟨o, ho, hkey, -⟩
  · exact Or.inl ⟨e, he⟩
  rcases hty : f.pack.type with _ | _ | _ | n
  · have heq := Option.some_injective _ (ho.symm.trans (offerOf_rreq hty))
    have hsk : o.key = nw.key s := by rw [heq]; exact hF.srcKey hf
    exact absurd (key_inj (hsk.symm.trans hkey)) hsd
  · exact Or.inr rfl
  · exact absurd hty hfr.1
  · exact absurd hty ((hF.pack f hf).2.2 n)

/-- An RREP leaves an entry for `d`. -/
lemma Flood.exists_of_rrep (hF : nw.Flood s d lvl σ) (hf : f ∈ σ.wire)
    (hty : f.pack.type = .rrep) : ∃ e, findKey (nw.key d) (nw.learned σ f).rtbl = some e := by
  have ho : nw.offerOf σ f = _ := offerOf_rrep hty
  obtain ⟨e, he, -⟩ := exists_findKey_offer (nw.host f.dst).sp (t := (σ.node f.dst).rtbl) ho
    (by simp [hty])
  have hkey : nw.key d = (destOffer nw.rs σ.clock f.pack f.hwSrc f.ifindex f.pack.rreq.hop
    f.pack.rrep.hop).key := (hF.destKey hf).symm
  exact ⟨e, hkey ▸ he⟩

/-! ## The paths of a cold start -/

/-- **Under the invariant a packet takes one of six paths**: no RREQ is answered from a table,
and no RREP is without a way back. -/
theorem Flood.discovers {nw : NamedNetwork k} (hF : nw.Flood s d lvl σ) (hk : k ≤ 10) (hsd : s ≠ d)
    (hf : f ∈ σ.wire) (hfr : nw.FreshFor σ f) (io : UnixIo) :
    nw.Discovers s d σ f (nw.receive σ f io).node (nw.receive σ f io).sent := by
  have hmax := hF.withinMaxh hk hf hfr.1
  have hsrc := hF.srcKey hf
  have hdst := hF.destKey hf
  obtain ⟨hsip, hdip, hother⟩ := hF.pack f hf
  have hself : isSelfDest (nw.host f.dst) f.pack.destCanIpStr = 1 ↔ f.dst = d := by
    rw [isSelfDest_eq_one, hdip]
    exact ⟨fun h => (addr_inj h).symm, fun h => by rw [h]⟩
  have hmine : isSelfSrc (nw.host f.dst) f.pack.srcCanIpStr = 1 ↔ f.dst = s := by
    rw [isSelfSrc_eq_one, hsip]
    exact ⟨fun h => (addr_inj h).symm, fun h => by rw [h]⟩
  have H := nw.receive_handled σ f io
  revert H
  generalize (nw.receive σ f io).node = s', (nw.receive σ f io).sent = fr,
    (nw.receive σ f io).unix = ux
  intro H
  cases H with
  | dropped hop => exact absurd hmax hop
  | unknown _ n hty => exact absurd hty (hother n)
  | rreqKnown _ hty hsent =>
    rw [(hF.rreq f hf hty).1.2.1] at hsent
    exact absurd hsent (by decide)
  | rreqDest _ hty _ hd e he =>
    rw [hsrc] at he
    exact .answer hty (hself.mp hd) e he
  | rreqDup _ hty _ hd hdup =>
    rw [hsrc, (hF.rreq f hf hty).1.1] at hdup
    exact .again hty (mt hself.mpr hd) hdup
  | rreqFlood _ hty _ hd hnew =>
    rw [hsrc, (hF.rreq f hf hty).1.1] at hnew ⊢
    exact .forward hty (mt hself.mpr hd) (not_le.mpr hnew)
  | rreqAnswer _ hty _ hd hnew _ e he =>
    -- only a node that has forwarded has an entry for the destination
    rw [hdst] at he
    rw [hsrc, (hF.rreq f hf hty).1.1] at hnew
    rcases hF.learned_forth hsd hf hfr he with hold | hrep
    · exact absurd (hF.forth f.dst hold) (not_le.mpr hnew)
    · exact absurd (hty.symm.trans hrep) (by simp)
  | rrepSource _ hty hs hrd =>
    have hfs := hmine.mp hs
    rw [hdst]
    exact .arrive hty hfs (hfs ▸ hrd)
  | rrepLate _ hty hs hrd =>
    have hfs := hmine.mp hs
    exact .late hty hfs (hfs ▸ hrd)
  | rrepLost _ hty hs hroute =>
    -- a node that has forwarded has an entry for the source
    obtain ⟨hfw, -⟩ := hF.rrep f hf hty
    obtain ⟨e, he, -⟩ := hF.known f.dst hfw (mt hmine.mpr hs)
    obtain ⟨e', he', -⟩ := exists_findKey_learned f he
    rw [hsrc] at hroute
    exact absurd (he'.symm.trans hroute) (by simp)
  | rrepRelay _ hty hs e he =>
    rw [hsrc] at he
    exact .relay hty (mt hmine.mpr hs) e he
  | dataClient _ hty => exact absurd hty hfr.1
  | dataTimeout _ hty => exact absurd hty hfr.1
  | dataTurn _ hty => exact absurd hty hfr.1
  | dataToServer _ hty => exact absurd hty hfr.1
  | dataToClient _ hty => exact absurd hty hfr.1
  | dataStray _ hty => exact absurd hty hfr.1

end Network

end Odr
