/-
# The direction of DATA packets

A DATA packet of direction `1` is on its way to its destination, one of direction `-1` on its
way back to its source.  `process_pack` decides by the addresses alone: at its source it hands
the payload to the client, at its destination it asks the time server, whatever the direction.

This is right in every state of a run exactly when no step of the run sends a DATA packet to
the end it comes from: an endpoint's next hop is not the endpoint itself, and the next hop of a
node that passes a packet on is not the packet's origin.
-/
import Odr.Network.Invariants
import Odr.Network.Lab

namespace Odr

open Lab

/-- The key by which a DATA packet is passed on. -/
def OdrPack.goalKey (rs : Resolver) (p : OdrPack) : ℤ :=
  if p.srcDest = 1 then destKey rs p else srcKey rs p

namespace Network

variable {k : ℕ} {nw : Network k}

/-- A DATA packet at `m` is back where it comes from: at its source on the way to its
destination, or at its destination on the way to another node. -/
def BackAt (nw : Network k) (p : OdrPack) (m : Fin k) : Prop :=
  (p.srcDest = 1 ∧ p.srcCanIpStr = nw.addr m) ∨
    (p.srcDest = -1 ∧ p.destCanIpStr = nw.addr m ∧ p.srcCanIpStr ≠ nw.addr m)

/-- Once the receiver of `f` has read the packet, its next hop for the key belongs to `m`. -/
def LeadsTo (nw : Network k) (σ : Net k) (f : Transit k) (key : ℤ) (m : Fin k) : Prop :=
  ∃ r ∈ routeAfter nw.rs (nw.host f.dst).sp σ.clock f.pack f.hwSrc f.ifindex
    (σ.node f.dst).rtbl key, nw.Owns m r.1

/-- The node's next hop for the key is the node itself. -/
def OwnHop (nw : Network k) (σ : Net k) (n : Fin k) (key : ℤ) : Prop :=
  ∃ e ∈ findKey key (σ.node n).rtbl, nw.Owns n e.nextHopHwaddr

/-- The receiver of `f` sends a DATA packet to the end it comes from. -/
def ReturnsData (nw : Network k) (σ : Net k) (io : UnixIo) (f : Transit k) : Prop :=
  (f.pack.type = .rrep ∧ f.pack.srcCanIpStr = nw.addr f.dst ∧
    (σ.node f.dst).routeDiscovered = 0 ∧ nw.LeadsTo σ f (destKey nw.rs f.pack) f.dst) ∨
  (f.pack.type = .data ∧ f.pack.srcCanIpStr ≠ nw.addr f.dst ∧
    f.pack.destCanIpStr = nw.addr f.dst ∧ io.answer.isSome ∧
    nw.LeadsTo σ f (srcKey nw.rs f.pack) f.dst) ∨
  (f.pack.type = .data ∧ f.pack.srcCanIpStr ≠ nw.addr f.dst ∧
    f.pack.destCanIpStr ≠ nw.addr f.dst ∧
    ∃ m, nw.BackAt f.pack m ∧ nw.LeadsTo σ f (f.pack.goalKey nw.rs) m)

/-- The step sends a DATA packet to the end it comes from. -/
def ReturnStep (nw : Network k) (σ : Net k) : Label k → Prop
  | .request n _ req => skipDiscovery nw.rs (σ.node n) req ∧ (σ.node n).sourcePacket.WithinMaxh ∧
      nw.OwnHop σ n (getIndexFromIp nw.rs (requestDest nw.rs (σ.node n) req))
  | .deliver i io => ∃ f ∈ σ.wire[i]?, f.pack.WithinMaxh ∧ nw.ReturnsData σ io f
  | _ => False

instance (σ : Net k) (f : Transit k) (key : ℤ) (m : Fin k) : Decidable (nw.LeadsTo σ f key m) :=
  inferInstanceAs (Decidable (∃ r ∈ routeAfter _ _ _ _ _ _ _ _, _))

instance (p : OdrPack) (m : Fin k) : Decidable (nw.BackAt p m) :=
  inferInstanceAs (Decidable (_ ∨ _))

instance (σ : Net k) (io : UnixIo) (f : Transit k) : Decidable (nw.ReturnsData σ io f) :=
  inferInstanceAs (Decidable (_ ∨ _ ∨ _))

instance (σ : Net k) (l : Label k) : Decidable (nw.ReturnStep σ l) :=
  match l with
  | .request _ _ _ => inferInstanceAs (Decidable (_ ∧ _ ∧ ∃ e ∈ findKey _ _, _))
  | .deliver i _ => inferInstanceAs (Decidable (∃ f ∈ σ.wire[i]?, _))
  | .lose _ => .isFalse id
  | .tick _ => .isFalse id

/-- What is asked of the handling of a DATA packet: only a reply at its source reaches the
client, only a request at its destination reaches the server and is turned round. -/
structure Directed (nw : Network k) (f : Transit k) (out : Outcome) : Prop where
  client : ∀ a r, .toClient a r ∈ out.unix →
    f.pack.srcDest = -1 ∧ f.pack.srcCanIpStr = nw.addr f.dst
  server : ∀ text, .toServer text ∈ out.unix →
    f.pack.srcDest = 1 ∧ f.pack.destCanIpStr = nw.addr f.dst
  turn : ∀ g ∈ out.sent, g.pack.srcDest ≠ f.pack.srcDest →
    f.pack.srcDest = 1 ∧ f.pack.destCanIpStr = nw.addr f.dst

/-- Every DATA packet in flight will be handled as its direction says. -/
def Disciplined (nw : Network k) (σ : Net k) : Prop :=
  ∀ f ∈ σ.wire, f.pack.type = .data → ∀ io, nw.Directed f (nw.receive σ f io)

/-- Every DATA packet in flight has one of the two directions. -/
def TwoWay (σ : Net k) : Prop :=
  ∀ f ∈ σ.wire, f.pack.type = .data → f.pack.srcDest = 1 ∨ f.pack.srcDest = -1

/-! ## The handling of one packet -/

/-- A packet that is handled as its direction says is not back where it comes from. -/
lemma Directed.not_backAt {nw : NamedNetwork k} {σ : Net k} {f : Transit k} {io : UnixIo}
    {out : Outcome} (hd : nw.Directed f out) (hty : f.pack.type = .data)
    (hdir : f.pack.srcDest = 1 ∨ f.pack.srcDest = -1) (hop : f.pack.WithinMaxh)
    (H : Handled nw.rs (nw.host f.dst) io σ.clock (σ.node f.dst) f.pack f.hwSrc f.ifindex
      out.node out.sent out.unix) : ¬nw.BackAt f.pack f.dst := by
  intro hback
  obtain ⟨s', q, ret, fr, ux⟩ := out
  simp only at H
  cases H with
  | dropped hop' => exact hop' hop
  | dataClient hop hty' hself =>
    -- only a reply may reach the client, and this node is the packet's source
    have hsrc := isSelfSrc_ne_zero.mp hself
    obtain ⟨h1, -⟩ := hd.client _ _ (List.mem_singleton.mpr rfl)
    rcases hback with ⟨h, -⟩ | ⟨-, -, h⟩
    · rw [h] at h1
      simp at h1
    · exact h hsrc
  | dataTimeout hop hty' hsrc hself hio =>
    obtain ⟨h1, -⟩ := hd.server _ (List.mem_singleton.mpr rfl)
    rcases hback with ⟨-, h⟩ | ⟨h, -⟩
    · exact isSelfSrc_eq_zero.mp hsrc h
    · rw [h] at h1
      simp at h1
  | dataTurn hop hty' hsrc hself text hio =>
    obtain ⟨h1, -⟩ := hd.server _ (List.mem_singleton.mpr rfl)
    rcases hback with ⟨-, h⟩ | ⟨h, -⟩
    · exact isSelfSrc_eq_zero.mp hsrc h
    · rw [h] at h1
      simp at h1
  | dataToServer hop hty' hsrc hself hd1 =>
    rcases hback with ⟨-, h⟩ | ⟨-, h, -⟩
    · exact isSelfSrc_eq_zero.mp hsrc h
    · exact isSelfDest_eq_zero.mp hself h
  | dataToClient hop hty' hsrc hself hd1 =>
    rcases hback with ⟨-, h⟩ | ⟨-, h, -⟩
    · exact isSelfSrc_eq_zero.mp hsrc h
    · exact isSelfDest_eq_zero.mp hself h
  | dataStray hop hty' hsrc hself hd1 =>
    rcases hdir with h | h
    · exact hd1.1 h
    · exact hd1.2 h
  | _ => simp_all

/-- A packet that is not back where it comes from is handled as its direction says. -/
lemma directed_of_handled {nw : NamedNetwork k} {σ : Net k} {f : Transit k} {io : UnixIo}
    {out : Outcome} (hty : f.pack.type = .data) (hdir : f.pack.srcDest = 1 ∨ f.pack.srcDest = -1)
    (hback : f.pack.WithinMaxh → ¬nw.BackAt f.pack f.dst)
    (H : Handled nw.rs (nw.host f.dst) io σ.clock (σ.node f.dst) f.pack f.hwSrc f.ifindex
      out.node out.sent out.unix) : nw.Directed f out := by
  obtain ⟨s', q, ret, fr, ux⟩ := out
  simp only at H
  -- the addresses of the receiver decide between the three kinds of handling
  have hreply : f.pack.WithinMaxh → f.pack.srcCanIpStr = nw.addr f.dst →
      f.pack.srcDest = -1 := by
    intro hop hs
    rcases hdir with h | h
    · exact absurd (Or.inl ⟨h, hs⟩) (hback hop)
    · exact h
  have hrequest : f.pack.WithinMaxh → f.pack.srcCanIpStr ≠ nw.addr f.dst →
      f.pack.destCanIpStr = nw.addr f.dst → f.pack.srcDest = 1 := by
    intro hop hs hd
    rcases hdir with h | h
    · exact h
    · exact absurd (Or.inr ⟨h, hd, hs⟩) (hback hop)
  cases H with
  | dataClient hop hty' hself =>
    have hsrc := isSelfSrc_ne_zero.mp hself
    exact ⟨fun a r _ => ⟨hreply hop hsrc, hsrc⟩, by simp, by simp⟩
  | dataTimeout hop hty' hsrc hself hio =>
    have hdest := isSelfDest_ne_zero.mp hself
    have h1 := hrequest hop (isSelfSrc_eq_zero.mp hsrc) hdest
    exact ⟨by simp, fun _ _ => ⟨h1, hdest⟩, by simp⟩
  | dataTurn hop hty' hsrc hself text hio =>
    have hdest := isSelfDest_ne_zero.mp hself
    have h1 := hrequest hop (isSelfSrc_eq_zero.mp hsrc) hdest
    exact ⟨by simp, fun _ _ => ⟨h1, hdest⟩, fun _ _ _ => ⟨h1, hdest⟩⟩
  | dataToServer hop hty' hsrc hself hd1 =>
    -- a packet that is passed on keeps its direction
    refine ⟨by simp, by simp, fun g hg hne => ?_⟩
    rw [pack_of_mem_payloadFrames hg] at hne
    exact absurd rfl hne
  | dataToClient hop hty' hsrc hself hd1 =>
    refine ⟨by simp, by simp, fun g hg hne => ?_⟩
    rw [pack_of_mem_payloadFrames hg] at hne
    exact absurd rfl hne
  | dropped hop' => exact ⟨by simp, by simp, by simp⟩
  | dataStray hop hty' => exact ⟨by simp, by simp, by simp⟩
  | _ => simp_all

/-- A packet of one of the two directions is handled as its direction says unless it is back
where it comes from. -/
lemma directed_iff {nw : NamedNetwork k} {σ : Net k} {f : Transit k} (hty : f.pack.type = .data)
    (hdir : f.pack.srcDest = 1 ∨ f.pack.srcDest = -1) :
    (∀ io, nw.Directed f (nw.receive σ f io)) ↔
      (f.pack.WithinMaxh → ¬nw.BackAt f.pack f.dst) :=
  ⟨fun hall hop => (hall ⟨1, 1, none⟩).not_backAt hty hdir hop (nw.receive_handled σ f _),
    fun hback io => directed_of_handled hty hdir hback (nw.receive_handled σ f io)⟩

/-! ## The DATA packets that a node sends -/

/-- The receiver of `f` sends the DATA packet `q` along its entry for the key. -/
inductive DataOut (nw : Network k) (σ : Net k) (io : UnixIo) (f : Transit k) :
    OdrPack → ℤ → Prop
  | source (hty : f.pack.type = .rrep) (hself : f.pack.srcCanIpStr = nw.addr f.dst)
      (hrd : (σ.node f.dst).routeDiscovered = 0) :
      DataOut nw σ io f (f.pack.request (σ.node f.dst).msg) (destKey nw.rs f.pack)
  | turn (hty : f.pack.type = .data) (hsrc : f.pack.srcCanIpStr ≠ nw.addr f.dst)
      (hdest : f.pack.destCanIpStr = nw.addr f.dst) (text : Bytes) (hio : io.answer = some text) :
      DataOut nw σ io f
        (f.pack.timeReply (recvInto (σ.node f.dst).serverTimeReply text 32))
        (srcKey nw.rs f.pack)
  | pass (hty : f.pack.type = .data) (hsrc : f.pack.srcCanIpStr ≠ nw.addr f.dst)
      (hdest : f.pack.destCanIpStr ≠ nw.addr f.dst)
      (hdir : f.pack.srcDest = 1 ∨ f.pack.srcDest = -1) :
      DataOut nw σ io f f.pack (f.pack.goalKey nw.rs)

/-- Whatever DATA packets leave after a delivery are copies of one packet sent along the
entries of one key. -/
lemma dataOut_of_handled {nw : NamedNetwork k} {σ : Net k} {io : UnixIo} {f : Transit k} {s' : Node}
    {fr : List Frame} {ux : List UnixSend} {g : Frame}
    (H : Handled nw.rs (nw.host f.dst) io σ.clock (σ.node f.dst) f.pack f.hwSrc f.ifindex
      s' fr ux) (hg : g ∈ fr) (hdata : g.pack.type = .data) :
    f.pack.WithinMaxh ∧ ∃ q key, nw.DataOut σ io f q key ∧
      fr = payloadFrames (nw.ifs f.dst) (nw.learned σ f).rtbl q key := by
  cases H with
  | rrepSource hop hty hself hrd =>
    exact ⟨hop, _, _, .source hty (isSelfSrc_eq_one.mp hself) hrd, rfl⟩
  | dataTurn hop hty hsrc hself text hio =>
    exact ⟨hop, _, _, .turn hty (isSelfSrc_eq_zero.mp hsrc) (isSelfDest_ne_zero.mp hself) text hio,
      rfl⟩
  | dataToServer hop hty hsrc hself hdir =>
    refine ⟨hop, _, _, .pass hty (isSelfSrc_eq_zero.mp hsrc) (isSelfDest_eq_zero.mp hself)
      (Or.inl hdir), ?_⟩
    rw [OdrPack.goalKey, if_pos hdir]
    rfl
  | dataToClient hop hty hsrc hself hdir =>
    refine ⟨hop, _, _, .pass hty (isSelfSrc_eq_zero.mp hsrc) (isSelfDest_eq_zero.mp hself)
      (Or.inr hdir), ?_⟩
    rw [OdrPack.goalKey, if_neg (by rw [hdir]; decide)]
    rfl
  -- the other paths send RREQs and RREPs
  | rreqDest hop hty => rw [pack_of_mem_llFrames hg] at hdata; simp [OdrPack.destReply] at hdata
  | rreqFlood hop hty =>
    rw [pack_of_mem_bcastFrames hg] at hdata
    simp [OdrPack.reflood, hty] at hdata
  | rreqAnswer hop hty =>
    rcases List.mem_append.mp hg with hg | hg
    · rw [pack_of_mem_llFrames hg] at hdata
      simp [OdrPack.tableReply] at hdata
    · rw [pack_of_mem_bcastFrames hg] at hdata
      simp [OdrPack.answered] at hdata
  | rrepRelay hop hty =>
    rw [pack_of_mem_llFrames hg] at hdata
    simp [OdrPack.relayReply, hty] at hdata
  | _ => simp at hg

/-- A DATA packet that is to be sent is sent. -/
lemma sent_of_dataOut {nw : NamedNetwork k} {σ : Net k} {io : UnixIo} {f : Transit k} {s' : Node}
    {fr : List Frame} {ux : List UnixSend} {q : OdrPack} {key : ℤ}
    (H : Handled nw.rs (nw.host f.dst) io σ.clock (σ.node f.dst) f.pack f.hwSrc f.ifindex
      s' fr ux) (hop : f.pack.WithinMaxh) (ho : nw.DataOut σ io f q key) :
    fr = payloadFrames (nw.ifs f.dst) (nw.learned σ f).rtbl q key := by
  cases ho with
  | source hty hself hrd =>
    have hs := isSelfSrc_eq_one.mpr hself
    cases H with
    | rrepSource => rfl
    | _ => simp_all
  | turn hty hsrc hdest text hio =>
    have hs := isSelfSrc_eq_zero.mpr hsrc
    have hd := isSelfDest_ne_zero.mpr hdest
    cases H with
    | dataTurn hop hty' hsrc' hself' text' hio' =>
      obtain rfl := Option.some_injective _ (hio.symm.trans hio')
      rfl
    | _ => simp_all
  | pass hty hsrc hdest hdir =>
    have hs := isSelfSrc_eq_zero.mpr hsrc
    have hd := isSelfDest_eq_zero.mpr hdest
    cases H with
    | dataToServer hop hty' hsrc' hself' hdir' =>
      rw [OdrPack.goalKey, if_pos hdir']
      rfl
    | dataToClient hop hty' hsrc' hself' hdir' =>
      rw [OdrPack.goalKey, if_neg (by rw [hdir']; decide)]
      rfl
    | dataStray hop hty' hsrc' hself' hdir' =>
      rcases hdir with h | h
      · exact absurd h hdir'.1
      · exact absurd h hdir'.2
    | _ => simp_all

lemma DataOut.type {σ : Net k} {io : UnixIo} {f : Transit k} {q : OdrPack} {key : ℤ}
    (h : nw.DataOut σ io f q key) : q.type = .data := by
  cases h with
  | source hty => rfl
  | turn hty => exact hty
  | pass hty => exact hty

/-- A DATA packet leaves with the hop counts of the packet it is made of. -/
lemma DataOut.withinMaxh {σ : Net k} {io : UnixIo} {f : Transit k} {q : OdrPack} {key : ℤ}
    (h : nw.DataOut σ io f q key) (hop : f.pack.WithinMaxh) : q.WithinMaxh := by
  cases h with
  | source => exact hop
  | turn => exact hop
  | pass => exact hop

lemma DataOut.dir {σ : Net k} {io : UnixIo} {f : Transit k} {q : OdrPack} {key : ℤ}
    (h : nw.DataOut σ io f q key) : q.srcDest = 1 ∨ q.srcDest = -1 := by
  cases h with
  | source => exact Or.inl rfl
  | turn => exact Or.inr rfl
  | pass hty hsrc hdest hdir => exact hdir

lemma leadsTo_iff {σ : Net k} {f : Transit k} {key : ℤ} {m : Fin k} :
    nw.LeadsTo σ f key m ↔
      ∃ e, findKey key (nw.learned σ f).rtbl = some e ∧ nw.Owns m e.nextHopHwaddr := by
  rw [LeadsTo, ← route_updateRtblEntry]
  constructor
  · rintro ⟨r, hr, hm⟩
    obtain ⟨e, he, rfl⟩ := Option.map_eq_some_iff.mp hr
    exact ⟨e, he, hm⟩
  · rintro ⟨e, he, hm⟩
    exact ⟨e.route, Option.map_eq_some_iff.mpr ⟨e, he, rfl⟩, hm⟩

lemma returnsData_iff {nw : NamedNetwork k} {σ : Net k} {io : UnixIo} {f : Transit k} :
    nw.ReturnsData σ io f ↔
      ∃ q key, nw.DataOut σ io f q key ∧ ∃ m, nw.BackAt q m ∧ nw.LeadsTo σ f key m := by
  constructor
  · rintro (⟨hty, hself, hrd, hl⟩ | ⟨hty, hsrc, hdest, hio, hl⟩ | ⟨hty, hsrc, hdest, m, hb, hl⟩)
    · exact ⟨_, _, .source hty hself hrd, f.dst, Or.inl ⟨rfl, hself⟩, hl⟩
    · obtain ⟨text, hio⟩ := Option.isSome_iff_exists.mp hio
      exact ⟨_, _, .turn hty hsrc hdest text hio, f.dst, Or.inr ⟨rfl, hdest, hsrc⟩, hl⟩
    · have hdir : f.pack.srcDest = 1 ∨ f.pack.srcDest = -1 := by
        rcases hb with ⟨h, -⟩ | ⟨h, -⟩
        · exact Or.inl h
        · exact Or.inr h
      exact ⟨_, _, .pass hty hsrc hdest hdir, m, hb, hl⟩
  · rintro ⟨q, key, ho, m, hb, hl⟩
    cases ho with
    | source hty hself hrd =>
      rcases hb with ⟨-, h⟩ | ⟨h, -⟩
      · obtain rfl : f.dst = m := addr_inj (hself.symm.trans h)
        exact Or.inl ⟨hty, hself, hrd, hl⟩
      · simp [OdrPack.request] at h
    | turn hty hsrc hdest text hio =>
      rcases hb with ⟨h, -⟩ | ⟨-, h, -⟩
      · simp [OdrPack.timeReply] at h
      · obtain rfl : f.dst = m := addr_inj (hdest.symm.trans h)
        exact Or.inr (Or.inl ⟨hty, hsrc, hdest, by rw [hio]; rfl, hl⟩)
    | pass hty hsrc hdest hdir => exact Or.inr (Or.inr ⟨hty, hsrc, hdest, m, hb, hl⟩)

/-! ## What a step adds to the wire -/

lemma learned_linked {σ : Net k} {f : Transit k} (hwf : nw.Wf σ) (hf : f ∈ σ.wire) (key : ℤ)
    (e : RtblEntry) (he : findKey key (nw.learned σ f).rtbl = some e) :
    ∃ m, nw.Owns m e.nextHopHwaddr :=
  (linked_of_findKey_learned hwf hf he).exists_owns

/-- A DATA copy that a delivery puts on the wire. -/
lemma dataOut_of_mem_transmit {nw : NamedNetwork k} {σ : Net k} {io : UnixIo} {f c : Transit k}
    (hwf : nw.Wf σ) (hf : f ∈ σ.wire) (hc : c ∈ nw.transmit f.cause (nw.receive σ f io).sent)
    (hdata : c.pack.type = .data) :
    f.pack.WithinMaxh ∧ ∃ key, nw.DataOut σ io f c.pack key ∧ nw.LeadsTo σ f key c.dst := by
  obtain ⟨g, hg, hpack⟩ := exists_frame_of_mem_transmit hc
  obtain ⟨hop, q, key, ho, hsent⟩ :=
    dataOut_of_handled (nw.receive_handled σ f io) hg (hpack ▸ hdata)
  rw [hsent] at hc
  obtain ⟨hq, e, he, hm⟩ := exists_hop_of_mem_transmit
    (keyNodup_updateRtblEntry _ (hwf.nodup f.dst)) (learned_linked hwf hf key) hc
  exact ⟨hop, key, hq ▸ ho, leadsTo_iff.mpr ⟨e, he, hm⟩⟩

/-- Every DATA packet that is sent reaches its next hop. -/
lemma exists_mem_transmit_of_dataOut {nw : NamedNetwork k} {σ : Net k} {io : UnixIo} {f : Transit k}
    (hwf : nw.Wf σ) (hf : f ∈ σ.wire) (hop : f.pack.WithinMaxh) {q : OdrPack} {key : ℤ}
    (ho : nw.DataOut σ io f q key) {m : Fin k} (hl : nw.LeadsTo σ f key m) :
    ∃ c ∈ nw.transmit f.cause (nw.receive σ f io).sent, c.dst = m ∧ c.pack = q := by
  obtain ⟨e, he, hm⟩ := leadsTo_iff.mp hl
  obtain ⟨c, hc, hdst, hpack⟩ :=
    (linked_of_findKey_learned hwf hf he).exists_mem_transmit hm q f.cause
  refine ⟨c, ?_, hdst, hpack⟩
  obtain ⟨g, hg, h⟩ := mem_transmit.mp hc
  rw [sent_of_dataOut (nw.receive_handled σ f io) hop ho]
  exact mem_transmit.mpr
    ⟨g, mem_payloadFrames.mpr ⟨e, mem_of_findKey he, key_of_findKey he, hg⟩, h⟩

/-- A DATA copy of a client's request. -/
lemma data_of_mem_request {σ : Net k} {n : Fin k} {client : UnAddr} {req : OdrReq}
    {c : Transit k} (hwf : nw.Wf σ)
    (hc : c ∈ nw.transmit (n, client) (nw.request σ n client req).sent)
    (hdata : c.pack.type = .data) :
    skipDiscovery nw.rs (σ.node n) req ∧
      c.pack = dataPack nw.rs (nw.host n) (σ.node n) req ∧
      ∃ e, findKey (getIndexFromIp nw.rs (requestDest nw.rs (σ.node n) req)) (σ.node n).rtbl
        = some e ∧ nw.Owns c.dst e.nextHopHwaddr := by
  rw [request, mainRequest_sent] at hc
  split at hc
  · next hskip =>
    exact ⟨hskip, exists_hop_of_mem_transmit (hwf.nodup n)
      (fun e he => (hwf.route n _ e he).exists_owns) hc⟩
  · obtain ⟨g, hg, hpack⟩ := exists_frame_of_mem_transmit hc
    rw [hpack, pack_of_mem_bcastFrames hg] at hdata
    simp [rreqPack] at hdata

lemma TwoWay.step {nw : NamedNetwork k} {σ σ' : Net k} {l : Label k} (hwf : nw.Wf σ) (h : TwoWay σ)
    (hs : nw.Steps σ l σ') : TwoWay σ' := by
  intro c hc hdata
  cases hs.wire hc with
  | old hc => exact h c hc hdata
  | request n client req hl hc =>
    obtain ⟨-, hpack, -⟩ := data_of_mem_request hwf hc hdata
    exact Or.inl (by rw [hpack]; rfl)
  | deliver i io f hl hf hc =>
    obtain ⟨-, key, ho, -⟩ := dataOut_of_mem_transmit hwf (mem_wire_of_getElem hf) hc hdata
    exact ho.dir

lemma disciplined_iff {nw : NamedNetwork k} {σ : Net k} (h : TwoWay σ) :
    nw.Disciplined σ ↔
      ∀ f ∈ σ.wire, f.pack.type = .data → f.pack.WithinMaxh → ¬nw.BackAt f.pack f.dst :=
  forall₃_congr fun f hf hty => directed_iff hty (h f hf hty)

/-- **A step keeps the discipline exactly when it returns no DATA packet.** -/
lemma disciplined_step {nw : NamedNetwork k} {σ σ' : Net k} {l : Label k} (hwf : nw.Wf σ)
    (htw : TwoWay σ) (hd : nw.Disciplined σ) (hs : nw.Steps σ l σ') :
    nw.Disciplined σ' ↔ ¬nw.ReturnStep σ l := by
  rw [disciplined_iff (htw.step hwf hs)]
  rw [disciplined_iff htw] at hd
  constructor
  · intro hall hret
    cases hs with
    | request n client req =>
      obtain ⟨hskip, hop, e, he, hm⟩ := hret
      obtain ⟨c, hc, hdst, hpack⟩ := (hwf.route n _ e he).exists_mem_transmit hm
        (dataPack nw.rs (nw.host n) (σ.node n) req) (n, client)
      have hmem : c ∈ nw.transmit (n, client) (nw.request σ n client req).sent := by
        obtain ⟨g, hg, h⟩ := mem_transmit.mp hc
        rw [request, mainRequest_sent, if_pos hskip]
        exact mem_transmit.mpr
          ⟨g, mem_payloadFrames.mpr ⟨e, mem_of_findKey he, key_of_findKey he, hg⟩, h⟩
      refine hall c (List.mem_append_right _ hmem) (by rw [hpack]; rfl)
        (by rw [hpack]; exact hop) ?_
      rw [hpack, hdst]
      exact Or.inl ⟨rfl, rfl⟩
    | deliver i io f hf =>
      -- the copy that is returned is on the wire, and nothing stops it
      obtain ⟨f', hf', hop, hret⟩ := hret
      obtain rfl : f = f' := Option.some_injective _ (hf.symm.trans hf')
      obtain ⟨q, key, ho, m, hb, hl⟩ := returnsData_iff.mp hret
      obtain ⟨c, hc, hdst, hpack⟩ :=
        exists_mem_transmit_of_dataOut hwf (mem_wire_of_getElem hf) hop ho hl
      refine hall c (List.mem_append_right _ hc) (by rw [hpack]; exact ho.type)
        (by rw [hpack]; exact ho.withinMaxh hop) ?_
      rw [hpack, hdst]
      exact hb
    | lose i f hf => exact hret
    | tick d => exact hret
  · intro hret c hc hdata hop hb
    cases hs.wire hc with
    | old hc => exact hd c hc hdata hop hb
    | request n client req hl hc =>
      subst hl
      obtain ⟨hskip, hpack, e, he, hm⟩ := data_of_mem_request hwf hc hdata
      rw [hpack] at hb hop
      rcases hb with ⟨-, h⟩ | ⟨h, -⟩
      · obtain rfl : n = c.dst := addr_inj h
        exact hret ⟨hskip, hop, e, he, hm⟩
      · simp [dataPack] at h
    | deliver i io f hl hf hc =>
      subst hl
      obtain ⟨hop', key, ho, hl⟩ :=
        dataOut_of_mem_transmit hwf (mem_wire_of_getElem hf) hc hdata
      exact hret ⟨f, hf, hop', returnsData_iff.mpr ⟨_, key, ho, c.dst, hb, hl⟩⟩

/-- **The direction of DATA packets.** In every run, every DATA packet in flight will be
handled as its direction says, in every state of the run, exactly when no step of the run
sends a DATA packet to the end it comes from. -/
theorem disciplined_run_iff {nw : NamedNetwork k} {tr : List (Net k × Label k)} {σ : Net k}
    (hr : nw.system.Run (fun _ _ => True) tr σ) :
    ((∀ x ∈ tr, nw.Disciplined x.1) ∧ nw.Disciplined σ) ↔ ∀ x ∈ tr, ¬nw.ReturnStep x.1 x.2 := by
  have key_lemma : TwoWay σ ∧
      (((∀ x ∈ tr, nw.Disciplined x.1) ∧ nw.Disciplined σ) ↔
        ∀ x ∈ tr, ¬nw.ReturnStep x.1 x.2) := by
    refine Transition.System.Run.invariant (I := fun tr σ => TwoWay σ ∧
      (((∀ x ∈ tr, nw.Disciplined x.1) ∧ nw.Disciplined σ) ↔
        ∀ x ∈ tr, ¬nw.ReturnStep x.1 x.2)) ?_ ?_ hr
    · intro σ hσ
      have hwire : ∀ f, f ∉ σ.wire := by rw [hσ.wire]; simp
      exact ⟨fun f hf => absurd hf (hwire f),
        iff_of_true ⟨by simp, fun f hf => absurd hf (hwire f)⟩ (by simp)⟩
    · rintro tr σ l σ' hr ⟨htw, ih⟩ - hs
      have hwf := wf_of_reach hr.reach
      have hs := steps_of_step hs
      refine ⟨htw.step hwf hs, ?_⟩
      simp only [List.forall_mem_append, List.forall_mem_singleton]
      constructor
      · rintro ⟨⟨hall, hd⟩, hd'⟩
        exact ⟨ih.mp ⟨hall, hd⟩, (disciplined_step hwf htw hd hs).mp hd'⟩
      · rintro ⟨hall, hl⟩
        obtain ⟨h₁, hd⟩ := ih.mpr hall
        exact ⟨⟨h₁, hd⟩, (disciplined_step hwf htw hd hs).mpr hl⟩
  exact key_lemma.2

/-- A client of the first node of a pair asks for the second, whose answer arrives. -/
def pairAnswered : List (Label 2) :=
  [asks 0 0 1, .deliver 0 (answering []), .deliver 0 (answering []),
    .deliver 0 (answering [65])]

theorem disciplined_run_pair : pair.Disciplined (after pair pairAnswered) :=
  ((disciplined_run_iff (run_after (by decide +kernel) fun _ _ => trivial)).mpr
    (by decide +kernel)).2

/-- A client of the first node asks for its own node.  The second node has just learned the
address, answers, and sends the DATA packet back. -/
def pairSelf : List (Label 2) :=
  [asks 0 0 0, .deliver 0 (answering []), .deliver 0 (answering []),
    .deliver 1 (answering [])]

/-- The client gets its own request as the time. -/
theorem request_as_reply :
    ∃ σ, pair.system.Reach (fun _ _ => True) σ ∧ ¬pair.Disciplined σ ∧
      ∃ f ∈ σ.wire, f.pack.type = .data ∧ f.pack.srcDest = 1 ∧
        (pair.receive σ f (answering [])).unix =
          [.toClient (some (.client 0))
            ⟨strncpy (List.replicate 32 0) (ask 0).msg 32, ip 0, 57575⟩] := by
  have hex : ∃ f ∈ (after pair pairSelf).wire, f.pack.type = .data ∧ f.pack.srcDest = 1 ∧
      (pair.receive (after pair pairSelf) f (answering [])).unix =
        [.toClient (some (.client 0))
          ⟨strncpy (List.replicate 32 0) (ask 0).msg 32, ip 0, 57575⟩] := by
    decide +kernel
  refine ⟨after pair pairSelf, reach_after (by decide +kernel) fun _ _ => trivial, ?_, hex⟩
  intro hall
  obtain ⟨f, hf, hty, hdir, hux⟩ := hex
  have hreply := ((hall f hf hty (answering [])).client _ _
    (by rw [hux]; exact List.mem_singleton.mpr rfl)).1
  rw [hdir] at hreply
  simp at hreply

end Network

end Odr
