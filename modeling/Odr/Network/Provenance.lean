/-
# Where packets and routes come from

Two safety properties of every run, whatever is lost, stale or out of order.

Every packet goes back to a request, and every reply goes back to a datagram that the daemon of the
node it names has read when it had asked its time server.

Every route is a route to a machine of the network that is connected to the node that keeps it,
and RREPs are only ever in flight for such machines: a request for an address that no machine
within reach has comes to nothing.
-/
import Odr.Network.DataDirection
import Odr.Network.Exchange

namespace Odr

open Lab

namespace Network

variable {k : ℕ} {nw : Network k}

/-- **Induction on what is in flight.** A property of a history and a copy that later steps do not
undo holds of every copy in flight if the copies that a request sets off have it and a delivery
hands it on. -/
theorem wire_induction {ok : Net k → Label k → Prop}
    {P : List (Net k × Label k) → Transit k → Prop}
    (hmono : ∀ tr x t, P tr t → P (tr ++ [x]) t)
    (hrequest : ∀ tr σ n client req t, nw.system.Run ok tr σ →
      t ∈ nw.transmit (n, client) (nw.request σ n client req).sent →
      P (tr ++ [(σ, .request n client req)]) t)
    (hdeliver : ∀ tr σ i io f t, nw.system.Run ok tr σ → σ.wire[i]? = some f → P tr f →
      t ∈ nw.transmit f.cause (nw.receive σ f io).sent → P (tr ++ [(σ, .deliver i io)]) t)
    {tr : List (Net k × Label k)} {σ : Net k} (hr : nw.system.Run ok tr σ) :
    ∀ t ∈ σ.wire, P tr t := by
  refine hr.invariant (I := fun tr σ => ∀ t ∈ σ.wire, P tr t) (fun σ h t ht => ?_)
    fun tr σ l σ' hr hI hok hs t ht => ?_
  · rw [h.wire] at ht
    simp at ht
  · cases (steps_of_step hs).wire ht with
    | old h => exact hmono _ _ _ (hI t h)
    | request n client req hl h =>
      subst hl
      exact hrequest tr σ n client req t hr h
    | deliver i io f hl hf h =>
      subst hl
      exact hdeliver tr σ i io f t hr hf (hI f (mem_wire_of_getElem hf)) h

/-! ## Requests and what is read for them -/

/-- The client that is the cause has asked, at its node, for this address. -/
def AskedFor (nw : Network k) (tr : List (Net k × Label k)) (cause : Fin k × UnAddr)
    (ip : CanIp) : Prop :=
  ∃ τ req, (τ, Label.request cause.1 cause.2 req) ∈ tr ∧
    CanIp.cut (requestDest nw.rs (τ.node cause.1) req) = ip

/-- A packet from `src` has made the daemon of the machine with the address `dest` ask its time
server, and `time` is what the buffer held when it had read the next datagram on its Unix socket,
whoever sent that. -/
def AnswerRead (nw : Network k) (tr : List (Net k × Label k)) (src dest : CanIp)
    (time : Bytes) : Prop :=
  ∃ τ i io f text, (τ, Label.deliver i io) ∈ tr ∧ τ.wire[i]? = some f ∧
    f.pack.srcCanIpStr = src ∧ f.pack.destCanIpStr = dest ∧ dest = nw.addr f.dst ∧
    (nw.receive τ f io).unix = [.toServer [116, 116]] ∧ io.answer = some text ∧
    time = strncpy [] (recvInto (τ.node f.dst).serverTimeReply text 32) 32

/-- What is true of a copy in flight: its packet goes back to the request that is its cause, and
a reply to a datagram that was read for it. -/
structure Genuine (nw : Network k) (tr : List (Net k × Label k)) (f : Transit k) : Prop where
  src : f.pack.srcCanIpStr = nw.addr f.cause.1
  dest : nw.AskedFor tr f.cause f.pack.destCanIpStr
  reply : f.pack.type = .data → f.pack.srcDest = -1 →
    nw.AnswerRead tr f.pack.srcCanIpStr f.pack.destCanIpStr (f.pack.payload.take 32)

lemma AskedFor.snoc {tr : List (Net k × Label k)} {cause : Fin k × UnAddr} {ip : CanIp}
    (h : nw.AskedFor tr cause ip) (x : Net k × Label k) :
    nw.AskedFor (tr ++ [x]) cause ip := by
  obtain ⟨τ, req, hmem, hip⟩ := h
  exact ⟨τ, req, List.mem_append_left _ hmem, hip⟩

lemma AnswerRead.snoc {tr : List (Net k × Label k)} {src dest : CanIp} {time : Bytes}
    (h : nw.AnswerRead tr src dest time) (x : Net k × Label k) :
    nw.AnswerRead (tr ++ [x]) src dest time := by
  obtain ⟨τ, i, io, f, text, hmem, hrest⟩ := h
  exact ⟨τ, i, io, f, text, List.mem_append_left _ hmem, hrest⟩

lemma Genuine.snoc {tr : List (Net k × Label k)} {f : Transit k} (h : nw.Genuine tr f)
    (x : Net k × Label k) : nw.Genuine (tr ++ [x]) f :=
  ⟨h.src, h.dest.snoc x, fun hty hdir => (h.reply hty hdir).snoc x⟩

/-- The first bytes of a payload are the text that was copied into it. -/
lemma take_strncpy (dst text : Bytes) (n : ℕ) :
    (strncpy dst text n).take n = strncpy [] text n := by
  have hlen : ((text.takeWhile (· ≠ 0)).take n).length ≤ n := List.length_take_le n _
  simp only [strncpy, List.drop_nil, List.append_nil]
  exact List.take_left' (by simp only [List.length_append, List.length_replicate]; omega)

/-- What a request sets off. -/
lemma genuine_of_request {tr : List (Net k × Label k)} {σ : Net k} {n : Fin k} {client : UnAddr}
    {req : OdrReq} {t : Transit k}
    (ht : t ∈ nw.transmit (n, client) (nw.request σ n client req).sent) :
    nw.Genuine (tr ++ [(σ, .request n client req)]) t := by
  obtain ⟨g, hg, j, -, -, -, -, hpack, hcause⟩ := mem_transmit.mp ht
  have hdest : g.pack.destCanIpStr = CanIp.cut (requestDest nw.rs (σ.node n) req) := by
    rcases pack_of_mem_request hg with h | ⟨-, h⟩
    · rw [h]
      rfl
    · rw [h]
      rfl
  refine ⟨?_, ⟨σ, req, ?_, ?_⟩, fun hty hdir => ?_⟩
  · rw [hpack, hcause]
    exact src_of_mem_request hg
  · rw [hcause]
    simp
  · rw [hpack, hcause]
    exact hdest.symm
  · rw [hpack] at hty hdir
    rcases pack_of_mem_request hg with h | ⟨-, h⟩
    · rw [h] at hdir
      exact absurd hdir (by simp [dataPack])
    · rw [h] at hty
      simp [rreqPack] at hty

/-- A DATA packet for the node from another one makes it ask the time server. -/
lemma unix_of_request {nw : NamedNetwork k} {σ : Net k} {f : Transit k} {io : UnixIo}
    (hop : f.pack.WithinMaxh) (hty : f.pack.type = .data)
    (hsrc : f.pack.srcCanIpStr ≠ nw.addr f.dst) (hdest : f.pack.destCanIpStr = nw.addr f.dst) :
    (nw.receive σ f io).unix = [.toServer [116, 116]] := by
  rw [receive, processPack, if_neg hop.not_over]
  simp only [hty]
  rw [processData, if_neg (not_not.mpr (isSelfSrc_eq_zero.mpr hsrc)),
    if_pos (isSelfDest_ne_zero.mpr hdest)]
  rcases io.answer with _ | text
  · rfl
  · rfl

/-- What a node sends on. -/
lemma Genuine.deliver {nw : NamedNetwork k} {tr : List (Net k × Label k)} {σ : Net k} {i : ℕ}
    {io : UnixIo} {f t : Transit k} (hf : σ.wire[i]? = some f) (hG : nw.Genuine tr f)
    (ht : t ∈ nw.transmit f.cause (nw.receive σ f io).sent) :
    nw.Genuine (tr ++ [(σ, .deliver i io)]) t := by
  have H := nw.receive_handled σ f io
  obtain ⟨g, hg, j, -, -, -, -, hpack, hcause⟩ := mem_transmit.mp ht
  refine ⟨?_, ?_, fun hty hdir => ?_⟩
  · rw [hpack, hcause, (H.leaves hg).src]
    exact hG.src
  · rw [hpack, hcause, (H.leaves hg).dest]
    exact hG.dest.snoc _
  · rw [hpack] at hty hdir ⊢
    obtain ⟨hop, q, key, ho, hfr⟩ := dataOut_of_handled H hg hty
    rw [hfr] at hg
    rw [pack_of_mem_payloadFrames hg] at hdir ⊢
    cases ho with
    | source hrep hself hrd => simp [OdrPack.request] at hdir
    | turn hty' hsrc hdest text hio =>
      -- here the reply is made
      exact ⟨σ, i, io, f, text, by simp, hf, rfl, rfl, hdest, unix_of_request hop hty' hsrc hdest,
        hio, take_strncpy _ _ _⟩
    | pass hty' hsrc hdest hdir' => exact (hG.reply hty' hdir).snoc _

/-- Every packet in flight is genuine, in every run. -/
theorem genuine_of_run {nw : NamedNetwork k} {ok : Net k → Label k → Prop}
    {tr : List (Net k × Label k)} {σ : Net k} (hr : nw.system.Run ok tr σ) :
    ∀ f ∈ σ.wire, nw.Genuine tr f :=
  wire_induction (fun _ x _ h => h.snoc x) (fun _ _ _ _ _ _ _ ht => genuine_of_request ht)
    (fun _ _ _ _ _ _ _ hf hG ht => hG.deliver hf ht) hr

/-- A client is handed what a DATA packet carries that has come to its source. -/
lemma handed_of_mem_unix {nw : NamedNetwork k} {σ : Net k} {f : Transit k} {io : UnixIo}
    {a : Option UnAddr} {r : OdrReply} (hu : .toClient a r ∈ (nw.receive σ f io).unix) :
    f.pack.type = .data ∧ f.pack.srcCanIpStr = nw.addr f.dst ∧
      r = ⟨f.pack.payload.take 32, f.pack.destCanIpStr, 57575⟩ := by
  have H := nw.receive_handled σ f io
  revert H hu
  generalize (nw.receive σ f io).node = s', (nw.receive σ f io).sent = fr,
    (nw.receive σ f io).unix = ux
  intro hu H
  cases H with
  | dataClient hop hty hself =>
    obtain ⟨-, rfl⟩ := (UnixSend.toClient.injEq ..).mp (List.mem_singleton.mp hu)
    exact ⟨hty, isSelfSrc_ne_zero.mp hself, rfl⟩
  | dataTimeout => simp at hu
  | dataTurn => simp at hu
  | _ => simp at hu

/-- What a client is handed goes back to a request and to a datagram that was read for it. -/
lemma Genuine.handed {nw : NamedNetwork k} {tr : List (Net k × Label k)} {σ : Net k} {f : Transit k}
    (hG : nw.Genuine tr f) {io : UnixIo} {a : Option UnAddr} {r : OdrReply}
    (hu : .toClient a r ∈ (nw.receive σ f io).unix) (hdir : f.pack.srcDest = -1) :
    f.cause.1 = f.dst ∧ nw.AskedFor tr f.cause r.ip ∧
      nw.AnswerRead tr (nw.addr f.dst) r.ip r.time := by
  obtain ⟨hty, hsrc, rfl⟩ := handed_of_mem_unix hu
  refine ⟨addr_inj (hG.src.symm.trans hsrc), hG.dest, ?_⟩
  rw [← hsrc]
  exact hG.reply hty hdir

/-- A machine that is connected to `n` has an address with this key. -/
def Leads (nw : Network k) (n : Fin k) (key : ℤ) : Prop :=
  ∃ m, nw.key m = key ∧ nw.graph.Reachable n m

/-- No address loses its key when its text is cut to the 14 characters that a packet has room
for. -/
def KeepsKeys (nw : Network k) : Prop :=
  ∀ text, nw.idx (CanIp.cut (nw.rs.sockNtop text)) = getIndexFromIp nw.rs (nw.rs.sockNtop text)

/-- A packet that is sent along a route. -/
def Routed (nw : Network k) (p : OdrPack) : Prop :=
  p.type = .rrep ∨ p.type = .data ∧ nw.KeepsKeys

/-- Every route and every packet is for machines of the network that are within reach: a packet
comes from one, and one that is sent along a route is for one. -/
structure Grounded (nw : Network k) (σ : Net k) : Prop where
  route : ∀ n key e, findKey key (σ.node n).rtbl = some e → nw.Leads n key
  src : ∀ f ∈ σ.wire, ∃ n, f.pack.srcCanIpStr = nw.addr n ∧ nw.graph.Reachable f.dst n
  dest : ∀ f ∈ σ.wire, nw.Routed f.pack → nw.Leads f.dst (destKey nw.rs f.pack)

lemma Joined.reachable {n m : Fin k} (h : nw.Joined n m) : nw.graph.Reachable m n := by
  rcases eq_or_ne n m with rfl | hne
  · exact .rfl
  · exact (h.adj hne).symm.reachable

lemma Leads.joined {n m : Fin k} {key : ℤ} (h : nw.Leads n key) (hj : nw.Joined n m) :
    nw.Leads m key := by
  obtain ⟨d, hd, hr⟩ := h
  exact ⟨d, hd, hj.reachable.trans hr⟩

lemma leads_self {n : Fin k} {ip : CanIp} (h : ip = nw.addr n) : nw.Leads n (nw.idx ip) :=
  ⟨n, by rw [h]; rfl, .rfl⟩

lemma Grounded.initial {σ : Net k} (h : σ.Initial) : nw.Grounded σ where
  route n key e he := by
    rw [(h.node n).rtbl] at he
    simp [findKey_nil] at he
  src f hf := by
    rw [h.wire] at hf
    simp at hf
  dest f hf := by
    rw [h.wire] at hf
    simp at hf

lemma Grounded.srcKey {σ : Net k} (hG : nw.Grounded σ) {f : Transit k} (hf : f ∈ σ.wire) :
    nw.Leads f.dst (srcKey nw.rs f.pack) := by
  obtain ⟨n, hn, hr⟩ := hG.src f hf
  exact ⟨n, (congrArg nw.idx hn).symm, hr⟩

/-- What a node learns from a packet is a route to a machine within reach: the source of an
RREQ, or the destination of an RREP. -/
lemma Grounded.learned {σ : Net k} (hG : nw.Grounded σ) {f : Transit k} (hf : f ∈ σ.wire)
    {key : ℤ} {e : RtblEntry} (he : findKey key (nw.learned σ f).rtbl = some e) :
    nw.Leads f.dst key := by
  rcases findKey_updateRtblEntry_cases _ he with
    ⟨e₀, -, he₀, -⟩ | ⟨o, ho, rfl, -, -, -, hnew, -⟩
  · exact hG.route f.dst key e₀ he₀
  rcases hfind : findKey o.key (σ.node f.dst).rtbl with _ | e₀
  · have hty := hnew hfind
    rw [offer] at ho
    rcases hp : f.pack.type with _ | _ | _ | x
    · simp only [hp, Option.some.injEq] at ho
      subst ho
      exact hG.srcKey hf
    · simp only [hp, Option.some.injEq] at ho
      subst ho
      exact hG.dest f hf (Or.inl hp)
    · exact absurd hp hty
    · simp [hp] at ho
  · exact hG.route f.dst o.key e₀ hfind

/-- A node sends a packet along a route only for a machine within its reach. -/
lemma Grounded.leads_of_leaves {nw : NamedNetwork k} {σ : Net k} (hG : nw.Grounded σ)
    {f : Transit k} (hf : f ∈ σ.wire) {q : OdrPack}
    (hl : Leaves nw.rs (nw.host f.dst) σ.clock (σ.node f.dst) f.pack f.hwSrc f.ifindex q)
    (hq : nw.Routed q) : nw.Leads f.dst (destKey nw.rs q) := by
  -- DATA that is passed on is DATA for which the addresses keep their keys
  have hdata : ∀ {r : OdrPack}, nw.Routed r → r.type = .data → nw.KeepsKeys := by
    rintro r (h | h) hr
    · cases h.symm.trans hr
    · exact h.2
  cases hl with
  | destReply hop hty hself => exact leads_self (isSelfDest_eq_one.mp hself)
  | reflood hop hty => rcases hq with h | ⟨h, -⟩ <;> cases hty.symm.trans h
  | tableReply hop hty e he => exact hG.learned hf he
  | answered hop hty e => rcases hq with h | ⟨h, -⟩ <;> cases h
  | relayReply hop hty => exact hG.dest f hf (Or.inl hty)
  | request hop hty => exact hG.dest f hf (Or.inl hty)
  | timeReply hop hty text => exact hG.dest f hf (Or.inr ⟨hty, hdata hq hty⟩)
  | same hop hty => exact hG.dest f hf (Or.inr ⟨hty, hdata hq hty⟩)

/-- A client's request makes its node send DATA only for a machine within its reach. -/
lemma Grounded.leads_of_request {σ : Net k} (hG : nw.Grounded σ) {n : Fin k} {client : UnAddr}
    {req : OdrReq} {g : Frame} (hg : g ∈ (nw.request σ n client req).sent)
    (hq : nw.Routed g.pack) : nw.Leads n (destKey nw.rs g.pack) := by
  rw [request, mainRequest_sent] at hg
  split at hg
  · next hskip =>
    obtain ⟨e, he⟩ := entryExistsForSrc_ne_zero.mp (of_decide_eq_true hskip).1
    rw [pack_of_mem_payloadFrames hg] at hq ⊢
    have hkeeps : nw.KeepsKeys := by
      rcases hq with h | h
      · cases h
      · exact h.2
    obtain ⟨m, hm, hr⟩ := hG.route n _ e he
    exact ⟨m, hm.trans (hkeeps (strncpy (σ.node n).msg req.msg 32)).symm, hr⟩
  · rw [pack_of_mem_bcastFrames hg] at hq
    rcases hq with h | ⟨h, -⟩ <;> cases h

lemma Grounded.step {nw : NamedNetwork k} {σ σ' : Net k} {l : Label k} (hG : nw.Grounded σ)
    (hs : nw.Steps σ l σ') : nw.Grounded σ' where
  route n key e he := by
    cases hs.node n with
    | same hl h =>
      rw [h] at he
      exact hG.route n key e he
    | request client req hl h =>
      rw [h] at he
      exact hG.route n key e he
    | deliver i io f hl hf hm h =>
      subst hm
      rw [h, rtbl_receive] at he
      split at he
      · exact hG.learned (mem_wire_of_getElem hf) he
      · exact hG.route f.dst key e he
  src t ht := by
    cases hs.wire ht with
    | old h => exact hG.src t h
    | request n client req hl h =>
      have hj := joined_of_mem_transmit (fun g hg => from_of_mem_request hg) h
      obtain ⟨g, hg, hpack⟩ := exists_frame_of_mem_transmit h
      exact ⟨n, by rw [hpack, src_of_mem_request hg], hj.reachable⟩
    | deliver i io f hl hf h =>
      have H := nw.receive_handled σ f io
      have hj := joined_of_mem_transmit (fun g hg => H.from_of_mem hg) h
      obtain ⟨g, hg, hpack⟩ := exists_frame_of_mem_transmit h
      obtain ⟨n, hn, hr⟩ := hG.src f (mem_wire_of_getElem hf)
      exact ⟨n, by rw [hpack, (H.leaves hg).src, hn], hj.reachable.trans hr⟩
  dest t ht hty := by
    cases hs.wire ht with
    | old h => exact hG.dest t h hty
    | request n client req hl h =>
      have hj := joined_of_mem_transmit (fun g hg => from_of_mem_request hg) h
      obtain ⟨g, hg, hpack⟩ := exists_frame_of_mem_transmit h
      rw [hpack] at hty ⊢
      exact (hG.leads_of_request hg hty).joined hj
    | deliver i io f hl hf h =>
      have H := nw.receive_handled σ f io
      have hj := joined_of_mem_transmit (fun g hg => H.from_of_mem hg) h
      obtain ⟨g, hg, hpack⟩ := exists_frame_of_mem_transmit h
      rw [hpack] at hty ⊢
      exact (hG.leads_of_leaves (mem_wire_of_getElem hf) (H.leaves hg) hty).joined hj

/-- **No route to a phantom.** In every reachable state, whatever was asked for, lost or late, the
key of a table entry is the key of a machine that is connected to the node, and so is the
destination of every RREP in flight: an address that no connected machine has gets no route and no
reply.  If cutting an address to 14 characters never changes its key, it gets no DATA either. -/
theorem no_phantom_routes {nw : NamedNetwork k} {σ : Net k}
    (hσ : nw.system.Reach (fun _ _ => True) σ) :
    (∀ n key e, findKey key (σ.node n).rtbl = some e →
      ∃ m, nw.key m = key ∧ nw.graph.Reachable n m) ∧
    ∀ f ∈ σ.wire, f.pack.type = .rrep ∨ f.pack.type = .data ∧ nw.KeepsKeys →
      ∃ m, nw.key m = destKey nw.rs f.pack ∧ nw.graph.Reachable f.dst m := by
  have hG : nw.Grounded σ := hσ.invariant (fun _ h => .initial h)
    fun _ _ _ _ hI _ hs => hI.step (steps_of_step hs)
  exact ⟨hG.route, hG.dest⟩

/-- The RREP on its way back in the network of two nodes. -/
theorem no_phantom_routes_pair :
    ∃ f ∈ (after pair (pairSession.take 2)).wire, f.pack.type = .rrep ∧
      ∃ m, pair.key m = destKey pair.rs f.pack ∧ pair.graph.Reachable f.dst m := by
  have hex : ∃ f ∈ (after pair (pairSession.take 2)).wire, f.pack.type = .rrep := by
    decide +kernel
  obtain ⟨f, hf, hty⟩ := hex
  have hσ : pair.system.Reach (fun _ _ => True) (after pair (pairSession.take 2)) :=
    reach_after (by decide +kernel) fun _ _ => trivial
  exact ⟨f, hf, hty, (no_phantom_routes hσ).2 f hf (Or.inl hty)⟩

end Network

end Odr
