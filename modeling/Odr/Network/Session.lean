/-
# A session

One client after the other asks at `s` for the time of `d`, each when all that the requests before
have set off has been delivered.  The first request floods the network.  When its exchange is over
the way is `Ready`, and every later request goes along it and back as one DATA packet, although
each of these packets may change the routes that it passes.

That nothing is in flight when a client asks is what the daemon relies on: an RREP that comes late
would find `route_discovered` reset by the new request, and would set off a second DATA packet.
-/
import Odr.Network.PavedWay
import Odr.Network.ExchangeEnd

namespace Odr

open Lab

/-- An answer that fills the time buffer reaches the payload whole, whatever was there. -/
lemma strncpy_recvInto_of_le {text : Bytes} (h : 32 ≤ text.length) (old buf : Bytes) :
    (strncpy old (recvInto buf text 32) 32).take 32 = strncpy [] text 32 := by
  have hcut : ((recvInto buf text 32).takeWhile (· ≠ 0)).take 32
      = (text.takeWhile (· ≠ 0)).take 32 := by
    rw [recvInto, List.take_takeWhile, List.take_takeWhile,
      List.take_append_of_le_length (by simpa using h), List.take_take, min_self]
  have hlen : ((text.takeWhile (· ≠ 0)).take 32).length ≤ 32 := List.length_take_le 32 _
  simp only [strncpy, hcut, List.drop_nil, List.append_nil]
  rw [List.take_append_of_le_length (by simp), List.take_of_length_le (by simp)]

namespace Network

variable {k : ℕ}

section Defs

variable (nw : Network k) (s d : Fin k)

/-- The steps of a session.  The time server's answer has 32 bytes, like those of
`server_aa19.c`. -/
def SessionStep (σ : Net k) : Label k → Prop
  | .request n _ req => n = s ∧ σ.wire = [] ∧ req.forcedDiscovery = 0 ∧
      requestDest nw.rs (σ.node n) req = (nw.addr d).str
  | .deliver i io => ∀ f ∈ σ.wire[i]?, nw.Current σ f ∧
      (f.pack.type = .data → f.dst = d → ∃ text ∈ io.answer, 32 ≤ text.length)
  | .lose _ => False
  | .tick _ => True

/-- The clients that have asked, in order. -/
def clients (tr : List (Net k × Label k)) : List UnAddr := tr.filterMap fun x => clientAt s x.2

/-- The answer of the time server that is asked in a step. -/
def answerAt (x : Net k × Label k) : Option Bytes :=
  match x.2 with
  | .deliver i io => (x.1.wire[i]?).bind fun f =>
      if (nw.receive x.1 f io).unix = [.toServer [116, 116]] then io.answer else none
  | _ => none

/-- The answers of the time servers, in order. -/
def answers (tr : List (Net k × Label k)) : List Bytes := tr.filterMap nw.answerAt

/-- What the Unix sockets carry when every client has got its answer before the next one asks. -/
def exchanges (rs : List (UnAddr × Bytes)) : List (Fin k × UnixSend) :=
  rs.flatMap fun r => [(d, .toServer [116, 116]), (s, .toClient (some r.1) (nw.replyOf d r.2))]

/-- While the route is sought every RREP has hops to spare; then the way is paved. -/
def Laid (σ : Net k) : Prop :=
  (σ.node s).routeDiscovered = 0 ∧ nw.Owed s σ ∨
    (σ.node s).routeDiscovered ≠ 0 ∧ ∃ H, nw.Paved s d H σ

/-- The exchanges `rs` are over.  Since then the clients `cs` have asked, the time server has
answered `ts`, and the Unix sockets have carried `us`. -/
structure Tally (rs : List (UnAddr × Bytes)) (cs : List UnAddr) (ts : List Bytes)
    (us : List (Fin k × UnixSend)) (tr : List (Net k × Label k)) : Prop where
  clients : clients s tr = rs.map Prod.fst ++ cs
  answers : nw.answers tr = rs.map Prod.snd ++ ts
  log : nw.unixLog tr = nw.exchanges s d rs ++ us

/-- Between two requests. -/
structure Rested (rs : List (UnAddr × Bytes)) (tr : List (Net k × Label k)) (σ : Net k) :
    Prop where
  tally : nw.Tally s d rs [] [] [] tr
  asked : rs ≠ []
  wire : σ.wire = []
  ready : ∃ l, nw.Ready s d l σ
  steps : dataSteps tr ≤ 18 * rs.length

/-- A later request is on its way. -/
structure Inquiring (rs : List (UnAddr × Bytes)) (client : UnAddr)
    (tr : List (Net k × Label k)) (σ : Net k) : Prop where
  tally : nw.Tally s d rs [client] [] [] tr
  token : ∃ pre a post t, nw.Outbound s d pre a post t σ ∧
    dataSteps tr ≤ 18 * rs.length + pre.length

/-- Its reply is on its way. -/
structure Returning (rs : List (UnAddr × Bytes)) (client : UnAddr) (text : Bytes)
    (tr : List (Net k × Label k)) (σ : Net k) : Prop where
  tally : nw.Tally s d rs [client] [text] [(d, .toServer [116, 116])] tr
  token : ∃ pre a post t, nw.Homebound s d pre a post t σ ∧
    t.pack.payload.take 32 = strncpy [] text 32 ∧ dataSteps tr ≤ 18 * rs.length + 9 + post.length

/-- The course of a session. -/
inductive Session (tr : List (Net k × Label k)) (σ : Net k) : Prop
  | idle (h : σ.Initial) (ht : nw.Tally s d [] [] [] [] tr) (hn : dataSteps tr = 0)
  | first (client : UnAddr) (hP : nw.Phase s d client tr σ) (hL : nw.Laid s d σ)
      (hc : clients s tr = [client])
  | rested (rs : List (UnAddr × Bytes)) (h : nw.Rested s d rs tr σ)
  | inquiring (rs : List (UnAddr × Bytes)) (client : UnAddr) (h : nw.Inquiring s d rs client tr σ)
  | returning (rs : List (UnAddr × Bytes)) (client : UnAddr) (text : Bytes)
      (h : nw.Returning s d rs client text tr σ)

end Defs

variable {nw : Network k} {s d : Fin k} {client : UnAddr} {σ σ' : Net k} {f : Transit k}
  {i : ℕ} {io : UnixIo} {tr : List (Net k × Label k)} {rs : List (UnAddr × Bytes)}
  {cs : List UnAddr} {ts : List Bytes} {us : List (Fin k × UnixSend)} {text : Bytes} {req : OdrReq}

lemma SessionStep.isSome (h : nw.SessionStep s d σ (.deliver i io)) (hf : σ.wire[i]? = some f)
    (hty : f.pack.type = .data) (hd : f.dst = d) : io.answer.isSome := by
  obtain ⟨text, htext, -⟩ := (h f hf).2 hty hd
  simp [Option.mem_def.mp htext]

/-! ## The books -/

lemma filterMap_snoc {A B : Type*} (g : A → Option B) (l : List A) (x : A) :
    (l ++ [x]).filterMap g = l.filterMap g ++ (g x).toList := by
  rw [List.filterMap_append]
  cases h : g x <;> simp [h]

lemma clients_snoc (x : Net k × Label k) :
    clients s (tr ++ [x]) = clients s tr ++ (clientAt s x.2).toList :=
  filterMap_snoc _ tr x

lemma answers_snoc (x : Net k × Label k) :
    nw.answers (tr ++ [x]) = nw.answers tr ++ (nw.answerAt x).toList :=
  filterMap_snoc _ tr x

lemma Tally.snoc (h : nw.Tally s d rs cs ts us tr) (x : Net k × Label k) :
    nw.Tally s d rs (cs ++ (clientAt s x.2).toList) (ts ++ (nw.answerAt x).toList)
      (us ++ nw.unixAt x) (tr ++ [x]) where
  clients := by rw [clients_snoc, h.clients, List.append_assoc]
  answers := by rw [answers_snoc, h.answers, List.append_assoc]
  log := by rw [unixLog_snoc, h.log, List.append_assoc]

/-- The reply closes an exchange. -/
lemma Tally.close (h : nw.Tally s d rs [client] [text] [(d, .toServer [116, 116]),
      (s, .toClient (some client) (nw.replyOf d text))] tr) :
    nw.Tally s d (rs ++ [(client, text)]) [] [] [] tr where
  clients := by simpa using h.clients
  answers := by simpa using h.answers
  log := by simpa [exchanges] using h.log

lemma answerAt_deliver (hf : σ.wire[i]? = some f) : nw.answerAt (σ, .deliver i io) =
    if (nw.receive σ f io).unix = [.toServer [116, 116]] then io.answer else none := by
  simp [answerAt, hf]

lemma Tally.tick (h : nw.Tally s d rs cs ts us tr) (x : ℕ) :
    nw.Tally s d rs cs ts us (tr ++ [(σ, .tick x)]) := by
  simpa [clientAt, answerAt, unixAt] using h.snoc (σ, .tick x)

lemma dataSteps_tick (x : ℕ) : dataSteps (tr ++ [(σ, .tick x)]) = dataSteps tr := by
  simp [dataSteps, List.countP_append]

/-- Each answer has a question. -/
lemma length_answers_le : (nw.answers tr).length ≤
    (nw.unixLog tr).countP fun u => u.2 = .toServer [116, 116] := by
  induction tr using List.reverseRecOn with
  | nil => simp [answers]
  | append_singleton tr x ih =>
    rw [answers_snoc, unixLog_snoc, List.length_append, List.countP_append]
    refine Nat.add_le_add ih ?_
    rcases x with ⟨σ, n | ⟨i, io⟩ | j | y⟩
    · exact Nat.zero_le _
    · rcases hf : σ.wire[i]? with _ | f
      · simp [answerAt, hf]
      · rw [answerAt_deliver hf, unixAt_deliver hf]
        split
        · next h =>
          rw [h]
          cases io.answer <;> simp
        · exact Nat.zero_le _
    · exact Nat.zero_le _
    · exact Nat.zero_le _

lemma Answered.mem_answers (h : nw.Answered s d text tr) : text ∈ nw.answers tr := by
  obtain ⟨τ, i, io, f, hmem, hf, -, -, hux, hans⟩ := h
  refine List.mem_filterMap.mpr ⟨_, hmem, ?_⟩
  rw [answerAt_deliver hf, if_pos hux, hans]

/-! ## The first exchange -/

lemma Paved.tick {H : ℤ} (h : nw.Paved s d H σ) (x : ℕ) :
    nw.Paved s d H { σ with clock := σ.clock + x } :=
  { h with ahead := { h.ahead with } }

lemma Laid.tick (h : nw.Laid s d σ) (x : ℕ) : nw.Laid s d { σ with clock := σ.clock + x } := by
  rcases h with ⟨hrd, ho⟩ | ⟨hrd, H, hP⟩
  · exact Or.inl ⟨hrd, ho⟩
  · exact Or.inr ⟨hrd, H, hP.tick x⟩

lemma Phase.routeDiscovered (h : nw.Phase s d client tr σ) (h0 : (σ.node s).routeDiscovered = 0) :
    ∃ lvl, nw.Seeking s d client lvl tr σ := by
  cases h with
  | seeking lvl h => exact ⟨lvl, h⟩
  | asking h => exact absurd h0 h.sent
  | replying text h => exact absurd h0 h.sent
  | served text h => exact absurd h0 h.sent

/-- **In the first exchange the way is laid.** -/
theorem Laid.deliver {nw : NamedNetwork k} (hL : nw.Laid s d σ) (hP : nw.Phase s d client tr σ)
    (hk : k ≤ 10) (hsd : s ≠ d) (hwf : nw.Wf σ) (hf : σ.wire[i]? = some f) (hc : nw.Current σ f)
    (hs : nw.Steps σ (.deliver i io) σ') : nw.Laid s d σ' := by
  rcases hL with ⟨hrd, ho⟩ | ⟨hrd, H, hH⟩
  · obtain ⟨lvl, h⟩ := hP.routeDiscovered hrd
    by_cases ha : nw.Arrives σ f
    · have hfs := (h.talk.isSource (mem_wire_of_getElem hf)).mp ha.2.2.1
      refine Or.inr ⟨?_, _, h.paved hk hsd hwf hf hc hs ho ha⟩
      rw [← hfs, hs.node_dst hf, routeDiscovered_of_arrives ha]
      exact one_ne_zero
    · obtain ⟨_, h'⟩ := h.stay hk hsd hwf hf hc hs ha
      exact Or.inl ⟨h'.waiting, ho.deliver hk hsd hwf hf hc hs h⟩
  · exact Or.inr ⟨routeDiscovered_deliver hf hs hrd, H,
      hH.deliver hP.talk hsd hwf hf hc hs hrd⟩

/-- When the first exchange is over, everything is ready for the next request. -/
lemma Phase.rested {nw : NamedNetwork k} (hP : nw.Phase s d client tr σ) (hL : nw.Laid s d σ)
    (hc : clients s tr = [client]) (hconn : nw.graph.Connected) (hsd : s ≠ d) (hwf : nw.Wf σ)
    (hempty : σ.wire = []) : ∃ text, nw.Rested s d [(client, text)] tr σ := by
  obtain ⟨text, h⟩ := hP.served_of_empty hconn hsd hempty
  obtain ⟨-, H, hH⟩ := hL.resolve_left fun h' => h.sent h'.1
  have hlen : (nw.answers tr).length ≤ _ := length_answers_le
  have hmem := h.answered.mem_answers
  rw [h.log] at hlen
  refine ⟨text, ⟨hc, ?_, h.log⟩, List.cons_ne_nil _ _, hempty,
    hH.exists_ready hsd hwf h.talk.positive, h.steps⟩
  rcases hans : nw.answers tr with _ | ⟨text', _ | ⟨text'', l⟩⟩
  · rw [hans] at hmem
    simp at hmem
  · rw [hans] at hmem
    rw [List.mem_singleton.mp hmem]
    rfl
  · rw [hans] at hlen
    simp at hlen

/-! ## The later exchanges -/

lemma Joins.length_le {l : List (Fin k)} (h : Joins s d l) (hk : k ≤ 10) : l.length ≤ 10 := by
  have hle := h.nodup.length_le_card
  rw [Fintype.card_fin] at hle
  omega

lemma unix_request : (nw.request σ s client req).unix = [] := by
  rw [request, mainRequest]

/-- A request that finds everything ready sets off one DATA packet. -/
lemma Rested.request (h : nw.Rested s d rs tr σ) (hsd : s ≠ d) (hifs : ∀ n, (nw.ifs n).Nodup)
    (hwf : nw.Wf σ) (hfresh : (σ.node s).sourcePacket.Fresh)
    (hok : nw.SessionStep s d σ (.request s client req))
    (hs : nw.Steps σ (.request s client req) σ') :
    nw.Inquiring s d rs client (tr ++ [(σ, .request s client req)]) σ' := by
  obtain ⟨-, -, hforced, hdest⟩ := hok
  obtain ⟨l, hl⟩ := h.ready
  obtain ⟨c, post, hout⟩ := hl.request hs hsd hifs hwf h.wire hfresh hdest hforced
  refine ⟨?_, [], s, post, c, hout, ?_⟩
  · simpa [clientAt, answerAt, unixAt, unix_request] using
      h.tally.snoc (σ, .request s client req)
  · have hsteps := h.steps
    simpa [dataSteps, List.countP_append] using hsteps

section Deliver

variable {nw : NamedNetwork k} (hk : k ≤ 10) (hsd : s ≠ d) (hifs : ∀ n, (nw.ifs n).Nodup)
  (hwf : nw.Wf σ) (hf : σ.wire[i]? = some f) (hok : nw.SessionStep s d σ (.deliver i io))
  (hs : nw.Steps σ (.deliver i io) σ') (hclient : (σ.node s).alClientAddr = some client)
include hk hsd hifs hwf hf hok hs hclient

/-- The request moves on, or it reaches `d` and is turned round. -/
lemma Inquiring.deliver (h : nw.Inquiring s d rs client tr σ) :
    nw.Inquiring s d rs client (tr ++ [(σ, .deliver i io)]) σ' ∨
      ∃ text, nw.Returning s d rs client text (tr ++ [(σ, .deliver i io)]) σ' := by
  obtain ⟨pre, a, post, t, hout, hn⟩ := h.token
  obtain ⟨hc, hans⟩ := hok f hf
  obtain ⟨rfl, -⟩ := wire_of_single hs hf hout.wire
  have hcount : dataSteps (tr ++ [(σ, .deliver i io)]) = dataSteps tr + 1 :=
    dataSteps_snoc_of_data hf hout.pack.type
  have htally := h.tally.snoc (σ, .deliver i io)
  rw [answerAt_deliver hf, unixAt_deliver hf] at htally
  rcases hout.deliver hsd hifs hwf hf hc
      (hok.isSome hf) hs hclient with
    ⟨hux, c, m, post', -, hout'⟩ | ⟨hux, hd, rfl, text, c, htext, hpack, hhome⟩
  · rw [hux] at htally
    refine Or.inl ⟨by simpa [clientAt] using htally, _, _, _, c, hout', ?_⟩
    rw [hcount, List.length_append, List.length_singleton]
    omega
  · rw [hux, if_pos rfl, htext, hd] at htally
    refine Or.inr ⟨text, by simpa [clientAt] using htally, _, _, _, c, hhome, ?_, ?_⟩
    · obtain ⟨text', ht', hle⟩ := hans hout.pack.type hd
      obtain rfl := Option.some_injective _ (htext.symm.trans ht')
      rw [hpack]
      exact strncpy_recvInto_of_le hle _ _
    · have hlen := hout.joins.length_le hk
      simp only [List.length_append, List.length_cons, List.length_nil] at hlen
      rw [hcount, List.length_nil]
      omega

/-- The reply moves on, or it reaches `s` and is handed to the client. -/
lemma Returning.deliver (h : nw.Returning s d rs client text tr σ) :
    nw.Returning s d rs client text (tr ++ [(σ, .deliver i io)]) σ' ∨
      nw.Rested s d (rs ++ [(client, text)]) (tr ++ [(σ, .deliver i io)]) σ' := by
  obtain ⟨pre, a, post, t, hhome, htext, hn⟩ := h.token
  obtain ⟨hc, hans⟩ := hok f hf
  obtain ⟨rfl, -⟩ := wire_of_single hs hf hhome.wire
  have hcount : dataSteps (tr ++ [(σ, .deliver i io)]) = dataSteps tr + 1 :=
    dataSteps_snoc_of_data hf hhome.pack.type
  have htally := h.tally.snoc (σ, .deliver i io)
  rw [answerAt_deliver hf, unixAt_deliver hf] at htally
  rcases hhome.deliver hsd hifs hwf hf hc
      (hok.isSome hf) hs hclient with ⟨hux, c, pre', -, hpack, hhome'⟩ | ⟨hux, hd, hempty, hready⟩
  · rw [hux] at htally
    refine Or.inl ⟨by simpa [clientAt] using htally, _, _, _, c, hhome', ?_, ?_⟩
    · rw [hpack]
      exact htext
    · rw [hcount, List.length_cons]
      omega
  · rw [hux, hd, htext] at htally
    refine Or.inr ⟨Tally.close (by simpa [clientAt, replyOf] using htally), by simp, hempty, hready,
      ?_⟩
    have hlen := hhome.joins.length_le hk
    have hleft := List.length_pos_iff.mpr hhome.left
    simp only [List.length_append, List.length_cons] at hlen
    rw [hcount, List.length_append, List.length_singleton]
    omega

end Deliver

/-! ## The run -/

lemma Session.tick (h : nw.Session s d tr σ) (x : ℕ) :
    nw.Session s d (tr ++ [(σ, .tick x)]) { σ with clock := σ.clock + x } := by
  have hn : dataSteps (tr ++ [(σ, .tick x)]) = dataSteps tr := dataSteps_tick x
  cases h with
  | idle h ht h0 => exact .idle ⟨h.node, h.wire⟩ (ht.tick x) (hn.trans h0)
  | first client hP hL hc =>
    exact .first client (hP.tick x) (hL.tick x) (by rw [clients_snoc, hc]; rfl)
  | rested rs h =>
    obtain ⟨l, hl⟩ := h.ready
    exact .rested rs ⟨h.tally.tick x, h.asked, h.wire, ⟨l, { hl with }⟩, hn ▸ h.steps⟩
  | inquiring rs client h =>
    obtain ⟨pre, a, post, t, hout, hle⟩ := h.token
    exact .inquiring rs client ⟨h.tally.tick x, pre, a, post, t, { hout with }, hn ▸ hle⟩
  | returning rs client text h =>
    obtain ⟨pre, a, post, t, hhome, htext, hle⟩ := h.token
    exact .returning rs client text
      ⟨h.tally.tick x, pre, a, post, t, { hhome with }, htext, hn ▸ hle⟩

/-- With nothing in flight a session has not begun, or it rests. -/
lemma Session.of_empty {nw : NamedNetwork k} (h : nw.Session s d tr σ) (hconn : nw.graph.Connected)
    (hsd : s ≠ d) (hwf : nw.Wf σ) (hempty : σ.wire = []) :
    (σ.Initial ∧ nw.Tally s d [] [] [] [] tr ∧ dataSteps tr = 0) ∨
      ∃ rs, nw.Rested s d rs tr σ := by
  cases h with
  | idle h ht h0 => exact Or.inl ⟨h, ht, h0⟩
  | first client hP hL hc =>
    obtain ⟨text, h⟩ := hP.rested hL hc hconn hsd hwf hempty
    exact Or.inr ⟨_, h⟩
  | rested rs h => exact Or.inr ⟨rs, h⟩
  | inquiring rs client h =>
    obtain ⟨pre, a, post, t, hout, -⟩ := h.token
    exact absurd (hempty.symm.trans hout.wire) (by simp)
  | returning rs client text h =>
    obtain ⟨pre, a, post, t, hhome, -⟩ := h.token
    exact absurd (hempty.symm.trans hhome.wire) (by simp)

/-- The last client that has asked is the one that the node knows. -/
lemma alClientAddr_of_tally (h : nw.Tally s d rs [client] ts us tr) (ht : nw.Traced tr σ) :
    (σ.node s).alClientAddr = some client := by
  rw [ht.client s, lastClient, Transition.System.lastOf, ← clients, h.clients]
  simp

/-- A node that has rested has taken a request. -/
lemma Rested.requested (h : nw.Rested s d rs tr σ) : Requested tr s := by
  have hne : clients s tr ≠ [] := by
    rw [h.tally.clients]
    simpa using h.asked
  obtain ⟨c, hc⟩ := List.exists_mem_of_ne_nil _ hne
  obtain ⟨⟨τ, l⟩, hx, hl⟩ := List.mem_filterMap.mp hc
  cases l with
  | request n client req =>
    rw [clientAt] at hl
    split at hl
    · next hn => exact ⟨_, hx, client, req, by rw [hn]⟩
    · simp at hl
  | _ => simp [clientAt] at hl

/-- **Every run of a session is in one of its stages.** -/
theorem session_of_run {nw : NamedNetwork k} (hk : k ≤ 10) (hconn : nw.graph.Connected)
    (hsd : s ≠ d) (hifs : ∀ n, (nw.ifs n).Nodup) (hr : nw.system.Run (nw.SessionStep s d) tr σ) :
    nw.Session s d tr σ := by
  refine hr.invariant (fun σ h => .idle h ⟨rfl, rfl, rfl⟩ rfl) ?_
  intro tr σ l σ' hr hI hok hs
  have hs := steps_of_step hs
  have hwf := wf_of_reach hr.reach
  have htr := traced_of_run hr
  cases l with
  | request n client req =>
    obtain rfl : n = s := hok.1
    rcases hI.of_empty hconn hsd hwf hok.2.1 with ⟨h, ht, h0⟩ | ⟨rs, h⟩
    -- the first request floods
    · have hfirst : nw.ExchangeStep n d σ (.request n client req) :=
        ⟨rfl, fun m => (h.node m).runningBroadcastNo, hok.2.2.1, by rw [hok.2.2.2, cut_str]⟩
      have hseek := seeking_of_request hsd h hfirst hs ht.log h0
      refine .first client (.seeking _ hseek) (Or.inl ⟨hseek.waiting, fun f hf hty => ?_⟩) ?_
      · obtain ⟨hpack, -⟩ :=
          exists_of_mem_transmit_bcastFrames ((mem_wire_of_request h hs f).mp hf)
        rw [hpack] at hty
        simp [rreqPack] at hty
      · rw [clients_snoc, ht.clients]
        simp [clientAt]
    · have hfresh := fresh_of_requested (hr.mono fun _ _ _ => trivial) h.requested
      exact .inquiring rs client (h.request hsd hifs hwf hfresh hok hs)
  | deliver i io =>
    have hs' := hs
    cases hs with
    | deliver _ _ f hf =>
      have hc := (hok f hf).1
      have hmem := mem_wire_of_getElem hf
      cases hI with
      | idle h =>
        rw [h.wire] at hmem
        simp at hmem
      | first client hP hL hcl =>
        exact .first client (hP.deliver hk hsd hifs hwf hf hc (hok.isSome hf) hs')
          (hL.deliver hP hk hsd hwf hf hc hs') (by rw [clients_snoc, hcl]; rfl)
      | rested rs h =>
        rw [h.wire] at hmem
        simp at hmem
      | inquiring rs client h =>
        have hclient := alClientAddr_of_tally h.tally htr
        rcases h.deliver hk hsd hifs hwf hf hok hs' hclient with h' | ⟨text, h'⟩
        · exact .inquiring rs client h'
        · exact .returning rs client text h'
      | returning rs client text h =>
        have hclient := alClientAddr_of_tally h.tally htr
        rcases h.deliver hk hsd hifs hwf hf hok hs' hclient with h' | h'
        · exact .returning rs client text h'
        · exact .rested _ h'
  | lose i => exact absurd hok id
  | tick x =>
    cases hs with
    | tick _ => exact hI.tick x

/-! ## The outcome -/

lemma Session.dataSteps_le (hS : nw.Session s d tr σ) (hk : k ≤ 10) :
    dataSteps tr ≤ 18 * (clients s tr).length := by
  cases hS with
  | idle h ht h0 => omega
  | first client hP hL hc =>
    have hle := hP.dataSteps_le
    rw [hc, List.length_singleton]
    omega
  | rested rs h =>
    have hle := h.steps
    simpa [h.tally.clients] using hle
  | inquiring rs client h =>
    obtain ⟨pre, a, post, t, hout, hle⟩ := h.token
    have hlen := hout.joins.length_le hk
    simp only [List.length_append, List.length_cons] at hlen
    simp only [h.tally.clients, List.length_append, List.length_map, List.length_singleton]
    omega
  | returning rs client text h =>
    obtain ⟨pre, a, post, t, hhome, -, hle⟩ := h.token
    have hlen := hhome.joins.length_le hk
    have hleft := List.length_pos_iff.mpr hhome.left
    simp only [List.length_append, List.length_cons] at hlen
    simp only [h.tally.clients, List.length_append, List.length_map, List.length_singleton]
    omega

/-- From the second request on one DATA packet is in flight, or none. -/
lemma Session.wire_data (hS : nw.Session s d tr σ) (htwo : 1 < (clients s tr).length) :
    σ.wire.length ≤ 1 ∧ ∀ f ∈ σ.wire, f.pack.type = .data := by
  cases hS with
  | idle h ht h0 => simp [h.wire]
  | first client hP hL hc =>
    rw [hc] at htwo
    simp at htwo
  | rested rs h => simp [h.wire]
  | inquiring rs client h =>
    obtain ⟨pre, a, post, t, hout, -⟩ := h.token
    simp [hout.wire, hout.pack.type]
  | returning rs client text h =>
    obtain ⟨pre, a, post, t, hhome, -⟩ := h.token
    simp [hhome.wire, hhome.pack.type]

instance (σ : Net k) (l : Label k) : Decidable (nw.SessionStep s d σ l) :=
  match l with
  | .request _ _ _ => inferInstanceAs (Decidable (_ ∧ _))
  | .deliver i _ => inferInstanceAs (Decidable (∀ f ∈ σ.wire[i]?, _))
  | .lose _ => .isFalse id
  | .tick _ => .isTrue trivial

/-- The first of three nodes in a row gets the time of the last, for two clients. -/
def lineSession : List (Label 3) :=
  let deliver := fun c => Label.deliver 0 (answering (List.replicate 32 c))
  lineDiscovery ++ [deliver 48, deliver 49, deliver 48, deliver 48, asks 0 1 2] ++
    [deliver 48, deliver 50, deliver 48, deliver 48]

end Network

end Odr
