/-
# The course of an exchange

After the request an exchange is in one of four phases: `Seeking` a route, while no DATA is in
flight; `Asking`, while the request is on its way to `d`; `Replying`, while the reply is on its
way back; and `Served`.  Every delivery keeps the phase or leads to the next one, and in each
phase but the last something is in flight.
-/
import Odr.Network.ExchangeData
import Odr.Network.Discovery

namespace Odr

open DistanceVector Flooding

/-- What is left of a text that has passed through the time buffer and a payload. -/
lemma strncpy_recvInto (buf text : Bytes) :
    (strncpy buf (recvInto (List.replicate 32 0) text 32) 32).take 32 = strncpy [] text 32 := by
  have hcut : (recvInto (List.replicate 32 0) text 32).takeWhile (· ≠ 0)
      = (text.takeWhile (· ≠ 0)).take 32 := by
    have hzero : ∀ n, (List.replicate n (0 : UInt8)).takeWhile (· ≠ 0) = [] := by
      intro n
      cases n <;> simp [List.replicate_succ]
    rw [recvInto, List.drop_replicate, List.takeWhile_append, hzero, List.take_takeWhile]
    split
    · next h => rw [List.append_nil, (List.takeWhile_sublist _).eq_of_length h]
    · rfl
  have hlen : ((text.takeWhile (· ≠ 0)).take 32).length ≤ 32 := List.length_take_le 32 _
  simp only [strncpy, hcut, List.take_take, min_self, List.drop_nil, List.append_nil]
  rw [List.take_append_of_le_length (by simp), List.take_of_length_le (by simp)]

namespace Network

variable {k : ℕ} {nw : Network k} {s d : Fin k} {client : UnAddr} {σ σ' : Net k}
  {f : Transit k} {i : ℕ} {io : UnixIo} {tr : List (Net k × Label k)} {lvl : Fin k → ℤ}
  {text : Bytes}

/-! ## The phases -/

/-- A packet from `s` has made the daemon of `d` ask its time server, which has answered with this
text. -/
def Answered (nw : Network k) (s d : Fin k) (text : Bytes) (tr : List (Net k × Label k)) : Prop :=
  ∃ τ i io f, (τ, Label.deliver i io) ∈ tr ∧ τ.wire[i]? = some f ∧ f.dst = d ∧
    f.pack.srcCanIpStr = nw.addr s ∧ (nw.receive τ f io).unix = [.toServer [116, 116]] ∧
    io.answer = some text

section Defs

variable (nw s d client)

/-- What the client is handed. -/
def replyOf (text : Bytes) : OdrReply := ⟨strncpy [] text 32, nw.addr d, 57575⟩

/-- No DATA has been sent yet. -/
structure Seeking (lvl : Fin k → ℤ) (tr : List (Net k × Label k)) (σ : Net k) : Prop where
  flood : nw.Flood s d lvl σ
  talk : nw.Talk s d client σ
  backed : nw.Backed σ
  waiting : (σ.node s).routeDiscovered = 0
  quiet : ∀ f ∈ σ.wire, f.pack.type ≠ .data
  /-- An RREP says at least how far `d` is from `s` on the way back. -/
  answer : ∀ f ∈ σ.wire, f.pack.type = .rrep →
    ∃ e, findKey (nw.key s) (σ.node d).rtbl = some e ∧ e.hop ≤ f.pack.rreq.hop
  buffer : (σ.node d).serverTimeReply = List.replicate 32 0
  log : nw.unixLog tr = []
  steps : dataSteps tr = 0

/-- The request is on its way. -/
structure Asking (tr : List (Net k × Label k)) (σ : Net k) : Prop where
  talk : nw.Talk s d client σ
  sent : (σ.node s).routeDiscovered ≠ 0
  forth : nw.ForthRoute d σ
  token : ∃ t x, dataWire σ = [t] ∧ t.pack.srcDest = 1 ∧ t.dst ≠ s ∧ t.pack.rreq.hop ≤ 9 ∧
    nw.BackRoute s d t.pack.rreq.hop σ ∧ Within nw.key (nw.tables σ) t.dst (nw.key d) x ∧
    1 ≤ x ∧ dataSteps tr + x ≤ 9
  buffer : (σ.node d).serverTimeReply = List.replicate 32 0
  log : nw.unixLog tr = []

/-- The reply is on its way. -/
structure Replying (text : Bytes) (tr : List (Net k × Label k)) (σ : Net k) : Prop where
  talk : nw.Talk s d client σ
  sent : (σ.node s).routeDiscovered ≠ 0
  token : ∃ t x, dataWire σ = [t] ∧ t.pack.srcDest = -1 ∧ t.dst ≠ d ∧
    t.pack.payload.take 32 = strncpy [] text 32 ∧ nw.BackRoute s d t.pack.rreq.hop σ ∧
    Within nw.key (nw.tables σ) t.dst (nw.key s) x ∧ 1 ≤ x ∧ x ≤ t.pack.rreq.hop ∧
    dataSteps tr + x ≤ 18
  answered : nw.Answered s d text tr
  log : nw.unixLog tr = [(d, .toServer [116, 116])]

/-- The client has the time. -/
structure Served (text : Bytes) (tr : List (Net k × Label k)) (σ : Net k) : Prop where
  talk : nw.Talk s d client σ
  sent : (σ.node s).routeDiscovered ≠ 0
  none : dataWire σ = []
  answered : nw.Answered s d text tr
  log : nw.unixLog tr =
    [(d, .toServer [116, 116]), (s, .toClient (some client) (nw.replyOf d text))]
  steps : dataSteps tr ≤ 18

/-- The phases of an exchange. -/
inductive Phase (tr : List (Net k × Label k)) (σ : Net k) : Prop
  | seeking (lvl : Fin k → ℤ) (h : nw.Seeking s d client lvl tr σ)
  | asking (h : nw.Asking s d client tr σ)
  | replying (text : Bytes) (h : nw.Replying s d client text tr σ)
  | served (text : Bytes) (h : nw.Served s d client text tr σ)

end Defs

lemma Answered.snoc (h : nw.Answered s d text tr) (x : Net k × Label k) :
    nw.Answered s d text (tr ++ [x]) := by
  obtain ⟨τ, i, io, f, hmem, hrest⟩ := h
  exact ⟨τ, i, io, f, List.mem_append_left _ hmem, hrest⟩

/-! ## One delivery in each phase -/

section Deliver

variable {nw : NamedNetwork k} (hk : k ≤ 10) (hsd : s ≠ d) (hifs : ∀ n, (nw.ifs n).Nodup)
  (hwf : nw.Wf σ) (hf : σ.wire[i]? = some f) (hc : nw.Current σ f)
  (hio : f.pack.type = .data → f.dst = d → io.answer.isSome) (hs : nw.Steps σ (.deliver i io) σ')

include hf in
lemma unixLog_of_ne_data (hty : f.pack.type ≠ .data) :
    nw.unixLog (tr ++ [(σ, .deliver i io)]) = nw.unixLog tr := by
  rw [unixLog_snoc, unixAt_deliver hf, unix_of_ne_data hty]
  simp

include hk hsd hwf hf hc hs in
/-- While no RREP arrives at `s` the route is sought. -/
lemma Seeking.stay (h : nw.Seeking s d client lvl tr σ) (ha : ¬nw.Arrives σ f) :
    ∃ lvl', nw.Seeking s d client lvl' (tr ++ [(σ, .deliver i io)]) σ' := by
  have hmem := mem_wire_of_getElem hf
  have hty := h.quiet f hmem
  have hfr := freshFor_of_current hc hty
  obtain ⟨lvl', -, hF'⟩ := h.flood.deliver hk hsd hwf hf hfr hs
  have hD := h.flood.discovers_deliver hk hsd hf hfr hs
  have hnone : dataWire σ' = [] := by
    rw [dataWire_of_ne hf hs hty, no_data_sent hty ha, List.append_nil]
    exact List.filter_eq_nil_iff.mpr fun t ht => by simpa using h.quiet t ht
  have hkeep : ∀ {x : ℤ}, (∃ e, findKey (nw.key s) (σ.node d).rtbl = some e ∧ e.hop ≤ x) →
      ∃ e, findKey (nw.key s) (σ'.node d).rtbl = some e ∧ e.hop ≤ x := by
    rintro x ⟨e, he, hle⟩
    obtain ⟨e', he', hle'⟩ := exists_findKey_of_steps hs he
    exact ⟨e', he', hle'.trans hle⟩
  refine ⟨lvl', {
    flood := hF'
    talk := h.talk.deliver hsd hwf hf hc hs
    backed := ?_
    waiting := ?_
    quiet := fun t ht hdata => ?_
    answer := fun t ht hrep => ?_
    buffer := ?_
    log := (unixLog_of_ne_data hf hty).trans h.log
    steps := (dataSteps_snoc_of_ne hf hty).trans h.steps }⟩
  · refine h.backed.step hwf (fun f' hf' _ => ?_) hs
    obtain rfl := Option.some_injective _ (hf.symm.trans hf')
    exact hfr.feasible
  · by_cases hsf : s = f.dst
    · rw [hsf, hs.node_dst hf, routeDiscovered_of_not_arrives ha, ← hsf]
      exact h.waiting
    · rw [hs.node_ne hf hsf]
      exact h.waiting
  · have hin : t ∈ dataWire σ' := List.mem_filter.mpr ⟨ht, by simpa using hdata⟩
    rw [hnone] at hin
    simp at hin
  · cases hs.wire ht with
    | old h' => exact hkeep (h.answer t h' hrep)
    | request n c req hl h' => simp at hl
    | deliver i' io' f' hl hf' h' =>
      cases hl
      obtain rfl := Option.some_injective _ (hf.symm.trans hf')
      obtain ⟨g, hg, hpack⟩ := exists_frame_of_mem_transmit h'
      rw [hpack] at hrep ⊢
      generalize (nw.receive σ f io).sent = fr at hg hD
      generalize hnode : σ'.node f.dst = s' at hD
      cases hD with
      | answer hty' hd e he =>
        obtain ⟨e', he', hle⟩ := h.flood.exists_of_rreq_deliver hk hf hfr hs hty'
        rw [pack_of_mem_llFrames hg, ← hd]
        exact ⟨e', he', hle⟩
      | relay hty' hns e he =>
        rw [pack_of_mem_llFrames hg]
        exact hkeep (h.answer f hmem hty')
      | forward hty' hd hfw =>
        rw [pack_of_mem_bcastFrames hg] at hrep
        simp [OdrPack.reflood, hty'] at hrep
      | arrive hty' hns hrd =>
        rw [pack_of_mem_payloadFrames hg] at hrep
        simp [OdrPack.request] at hrep
      | again hty' hd hfw => simp at hg
      | late hty' hns hrd => simp at hg
  · rw [serverTimeReply_deliver hf hs fun hdata => absurd hdata hty]
    exact h.buffer

/-- Descending tables lead to `d`. -/
lemma Backed.forthRoute (hb : nw.Backed σ) : nw.ForthRoute d σ := by
  intro n e m hnd he hm
  exact hb.descends n _ ⟨e.hop, m⟩ (fun h => hnd (key_inj h)) (tables_eq_some.mpr ⟨e, he, hm, rfl⟩)

/-- Descending tables lead from `d` back to `s`. -/
lemma Backed.backRoute (hb : nw.Backed σ) {H : ℤ}
    (he : ∃ e, findKey (nw.key s) (σ.node d).rtbl = some e ∧ e.hop ≤ H) :
    nw.BackRoute s d H σ where
  entry := he
  descend n e m hns he _ hm :=
    hb.descends n _ ⟨e.hop, m⟩ (fun h => hns (key_inj h)) (tables_eq_some.mpr ⟨e, he, hm, rfl⟩)

include hwf hf hifs hs in
/-- A payload that the receiver sends along an entry is the one DATA packet that it sends. -/
lemma single_sent (hop : f.pack.WithinMaxh) {key : ℤ} {e : RtblEntry} {q : OdrPack}
    (he : findKey key (σ'.node f.dst).rtbl = some e) (hq : q.type = .data)
    (hsent : (nw.receive σ f io).sent =
      payloadFrames (nw.ifs f.dst) (nw.learned σ f).rtbl q key) :
    ∃ c, (nw.transmit f.cause (nw.receive σ f io).sent).filter (fun t => t.pack.type = .data)
      = [c] ∧ c.pack = q ∧ nw.Owns c.dst e.nextHopHwaddr := by
  have hwf' := hwf.step hs
  have hr : (σ'.node f.dst).rtbl = (nw.learned σ f).rtbl := by
    rw [hs.node_dst hf, rtbl_receive, if_pos hop]
  obtain ⟨c, hone, hpack, hown⟩ := transmit_payloadFrames (hifs f.dst) (hwf'.nodup f.dst) he
    (hwf'.route f.dst _ e he) q f.cause
  refine ⟨c, ?_, hpack, hown⟩
  rw [hsent, ← hr, hone]
  simp [hpack, hq]

include hsd hifs hwf hf hc hs in
/-- The first RREP that arrives at `s` sets the request going. -/
lemma Seeking.arrive (h : nw.Seeking s d client lvl tr σ) (ha : nw.Arrives σ f) :
    nw.Asking s d client (tr ++ [(σ, .deliver i io)]) σ' := by
  have hmem := mem_wire_of_getElem hf
  have hty := h.quiet f hmem
  have hfr := freshFor_of_current hc hty
  have hT' := h.talk.deliver hsd hwf hf hc hs
  obtain ⟨hrep, hop, hself, hrd⟩ := ha
  have hfs := (h.talk.isSource hmem).mp hself
  obtain ⟨-, hrreq, hrrep, -⟩ := h.flood.rrep f hmem hrep
  have hb' : nw.Backed σ' := by
    refine h.backed.step hwf (fun f' hf' _ => ?_) hs
    obtain rfl := Option.some_injective _ (hf.symm.trans hf')
    exact hfr.feasible
  obtain ⟨e, he, hle⟩ := h.flood.exists_of_rrep_le hmem hfr hrep
  have hr : (σ'.node f.dst).rtbl = (nw.learned σ f).rtbl := by
    rw [hs.node_dst hf, rtbl_receive, if_pos hop]
  rw [← hr] at he
  obtain ⟨c, hone, hpack, hown⟩ := single_sent hifs hwf hf hs hop he rfl
    (h.talk.destKey hmem ▸
      sent_of_dataOut (nw.receive_handled σ f io) hop (.source hrep hself hrd))
  have hsd' : f.dst ≠ d := fun h' => hsd (hfs.symm.trans h')
  refine {
    talk := hT'
    sent := ?_
    forth := hb'.forthRoute
    token := ⟨c, e.hop, ?_, by rw [hpack]; rfl, ?_, by rw [hpack]; exact hrreq, ?_, ?_, ?_, ?_⟩
    buffer := ?_
    log := (unixLog_of_ne_data hf hty).trans h.log }
  · rw [← hfs, hs.node_dst hf, routeDiscovered_of_arrives ⟨hrep, hop, hself, hrd⟩]
    exact one_ne_zero
  · have hnil : dataWire σ = [] :=
      List.filter_eq_nil_iff.mpr fun t ht => by simpa using h.quiet t ht
    rw [dataWire_of_ne hf hs hty, hone, hnil, List.nil_append]
  · rintro rfl
    exact hT'.forth _ e he hown
  · rw [hpack]
    obtain ⟨e₀, he₀, hle₀⟩ := h.answer f hmem hrep
    obtain ⟨e₁, he₁, hle₁⟩ := exists_findKey_of_steps hs he₀
    exact hb'.backRoute ⟨e₁, he₁, hle₁.trans hle₀⟩
  · exact hb'.forthRoute f.dst e c.dst hsd' he hown
  · exact hT'.positive _ _ e he
  · rw [dataSteps_snoc_of_ne hf hty, h.steps]
    simp only [Nat.cast_zero, zero_add]
    omega
  · rw [serverTimeReply_deliver hf hs fun hdata => absurd hdata hty]
    exact h.buffer

include hsd hwf hf hc hs in
/-- RREQs and RREPs leave the request alone. -/
lemma Asking.stay (h : nw.Asking s d client tr σ) (hty : f.pack.type ≠ .data) :
    nw.Asking s d client (tr ++ [(σ, .deliver i io)]) σ' := by
  have hmem := mem_wire_of_getElem hf
  obtain ⟨t, x, hone, hdir, hts, h9, hB, hw, hx, hn⟩ := h.token
  exact {
    talk := h.talk.deliver hsd hwf hf hc hs
    sent := routeDiscovered_deliver hf hs h.sent
    forth := h.forth.deliver h.talk hsd hwf hf hc hs fun hdata => absurd hdata hty
    token := by
      refine ⟨t, x, ?_, hdir, hts, h9, ?_, hw.improve (improves_of_steps hwf hs), hx, ?_⟩
      · rw [dataWire_of_ne hf hs hty, no_data_sent hty (h.talk.not_arrives hmem h.sent), hone,
          List.append_nil]
      · exact hB.deliver h.talk hsd hwf hf hc hs fun hdata => absurd hdata hty
      · rw [dataSteps_snoc_of_ne hf hty]
        exact hn
    buffer := (serverTimeReply_deliver hf hs fun hdata => absurd hdata hty).trans h.buffer
    log := (unixLog_of_ne_data hf hty).trans h.log }

include hsd hifs hwf hf hc hio hs in
/-- The request moves on, or it reaches `d` and is turned round. -/
lemma Asking.move (h : nw.Asking s d client tr σ) (hty : f.pack.type = .data) :
    nw.Asking s d client (tr ++ [(σ, .deliver i io)]) σ' ∨
      ∃ text, nw.Replying s d client text (tr ++ [(σ, .deliver i io)]) σ' := by
  have hmem := mem_wire_of_getElem hf
  obtain ⟨t, x, hone, hdir, hts, h9, hB, hw, hx, hn⟩ := h.token
  obtain ⟨rfl, hwire⟩ := dataWire_of_single hf hs hty hone
  have hop := (h.talk.data hmem hty).1
  have hT' := h.talk.deliver hsd hwf hf hc hs
  have hF' := h.forth.deliver h.talk hsd hwf hf hc hs fun _ => hdir
  have hB' := hB.deliver h.talk hsd hwf hf hc hs fun _ _ => rfl
  have hw' := hw.improve (improves_of_steps hwf hs)
  have hC := h.talk.carries hmem hty (hio hty)
  have hcount : dataSteps (tr ++ [(σ, .deliver i io)]) = dataSteps tr + 1 :=
    dataSteps_snoc_of_data hf hty
  have hlog : nw.unixLog (tr ++ [(σ, .deliver i io)])
      = (nw.receive σ f io).unix.map (Prod.mk f.dst) := by
    rw [unixLog_snoc, h.log, unixAt_deliver hf, List.nil_append]
  generalize hfr : (nw.receive σ f io).sent = fr, hux : (nw.receive σ f io).unix = ux at hC
  rw [hux] at hlog
  cases hC with
  | hand hd => exact absurd hd hts
  | back hns hnd hdir' =>
    exact absurd (hdir.symm.trans hdir') (by decide)
  | forth hns hnd hdir' =>
    obtain ⟨e, he, hlt⟩ := exists_of_within hw' hnd
    obtain ⟨c, hsingle, hpack, hown⟩ := single_sent hifs hwf hf hs hop he hty hfr
    have h1 := hT'.positive _ _ e he
    refine Or.inl {
      talk := hT'
      sent := routeDiscovered_deliver hf hs h.sent
      forth := hF'
      token := ⟨c, e.hop, hwire.trans hsingle, by rw [hpack, hdir], ?_, by rw [hpack]; exact h9,
        by rw [hpack]; exact hB', hF' f.dst e c.dst hnd he hown, h1, ?_⟩
      buffer := (serverTimeReply_deliver hf hs fun _ => hnd).trans h.buffer
      log := hlog }
    · rintro rfl
      exact hT'.forth _ e he hown
    · rw [hcount]
      push_cast
      omega
  | turn hd text hans =>
    obtain ⟨e, he, hle⟩ := hB'.entry
    rw [← hd] at he
    have hq : (f.pack.timeReply (recvInto (σ.node f.dst).serverTimeReply text 32)).type = .data :=
      hty
    obtain ⟨c, hsingle, hpack, hown⟩ := single_sent hifs hwf hf hs hop he hq hfr
    have h1 := hT'.positive _ _ e he
    refine Or.inr ⟨text, {
      talk := hT'
      sent := routeDiscovered_deliver hf hs h.sent
      token := ⟨c, e.hop, hwire.trans hsingle, by rw [hpack]; rfl, ?_, ?_, ?_,
        hB'.descend f.dst e c.dst hts he (Or.inl hd) hown, h1, ?_, ?_⟩
      answered := ⟨σ, i, io, f, by simp, hf, hd, h.talk.src f hmem, hux, hans⟩
      log := by rw [hlog, hd]; rfl }⟩
    · rintro rfl
      exact hT'.back _ e he hown
    · have hbuf := h.buffer
      rw [← hd] at hbuf
      rw [hpack, OdrPack.timeReply, hbuf]
      exact strncpy_recvInto _ text
    · rw [hpack]
      exact hB'
    · rw [hpack]
      exact hle
    · rw [hcount]
      push_cast
      omega

include hsd hwf hf hc hs in
/-- RREQs and RREPs leave the reply alone. -/
lemma Replying.stay (h : nw.Replying s d client text tr σ) (hty : f.pack.type ≠ .data) :
    nw.Replying s d client text (tr ++ [(σ, .deliver i io)]) σ' := by
  have hmem := mem_wire_of_getElem hf
  obtain ⟨t, x, hone, hdir, htd, htext, hB, hw, hx, hxH, hn⟩ := h.token
  exact {
    talk := h.talk.deliver hsd hwf hf hc hs
    sent := routeDiscovered_deliver hf hs h.sent
    token := by
      refine ⟨t, x, ?_, hdir, htd, htext, ?_, hw.improve (improves_of_steps hwf hs), hx, hxH, ?_⟩
      · rw [dataWire_of_ne hf hs hty, no_data_sent hty (h.talk.not_arrives hmem h.sent), hone,
          List.append_nil]
      · exact hB.deliver h.talk hsd hwf hf hc hs fun hdata => absurd hdata hty
      · rw [dataSteps_snoc_of_ne hf hty]
        exact hn
    answered := h.answered.snoc _
    log := (unixLog_of_ne_data hf hty).trans h.log }

include hsd hifs hwf hf hc hs in
/-- The reply moves on, or it reaches `s` and is handed to the client. -/
lemma Replying.move (h : nw.Replying s d client text tr σ) (hty : f.pack.type = .data) :
    nw.Replying s d client text (tr ++ [(σ, .deliver i io)]) σ' ∨
      nw.Served s d client text (tr ++ [(σ, .deliver i io)]) σ' := by
  have hmem := mem_wire_of_getElem hf
  obtain ⟨t, x, hone, hdir, htd, htext, hB, hw, hx, hxH, hn⟩ := h.token
  obtain ⟨rfl, hwire⟩ := dataWire_of_single hf hs hty hone
  have hop := (h.talk.data hmem hty).1
  have hT' := h.talk.deliver hsd hwf hf hc hs
  have hB' : nw.BackRoute s d f.pack.rreq.hop σ' := by
    refine hB.deliver h.talk hsd hwf hf hc hs fun _ hdir' => ?_
    exact absurd (hdir.symm.trans hdir') (by decide)
  have hw' := hw.improve (improves_of_steps hwf hs)
  have hio : f.dst = d → io.answer.isSome := fun hd => absurd hd htd
  have hC := h.talk.carries hmem hty hio
  have hcount : dataSteps (tr ++ [(σ, .deliver i io)]) = dataSteps tr + 1 :=
    dataSteps_snoc_of_data hf hty
  have hlog : nw.unixLog (tr ++ [(σ, .deliver i io)]) =
      (d, .toServer [116, 116]) :: (nw.receive σ f io).unix.map (Prod.mk f.dst) := by
    rw [unixLog_snoc, h.log, unixAt_deliver hf]
    rfl
  generalize hfr : (nw.receive σ f io).sent = fr, hux : (nw.receive σ f io).unix = ux at hC
  rw [hux] at hlog
  cases hC with
  | turn hd => exact absurd hd htd
  | forth hns hnd hdir' =>
    exact absurd (hdir.symm.trans hdir') (by decide)
  | back hns hnd hdir' =>
    obtain ⟨e, he, hlt⟩ := exists_of_within hw' hns
    obtain ⟨c, hsingle, hpack, hown⟩ := single_sent hifs hwf hf hs hop he hty hfr
    have h1 := hT'.positive _ _ e he
    refine Or.inl {
      talk := hT'
      sent := routeDiscovered_deliver hf hs h.sent
      token := ⟨c, e.hop, hwire.trans hsingle, by rw [hpack, hdir], ?_, by rw [hpack]; exact htext,
        by rw [hpack]; exact hB', hB'.descend f.dst e c.dst hns he (Or.inr (by omega)) hown, h1,
        by rw [hpack]; omega, ?_⟩
      answered := h.answered.snoc _
      log := hlog }
    · rintro rfl
      exact hT'.back _ e he hown
    · rw [hcount]
      push_cast
      omega
  | hand hd =>
    refine Or.inr {
      talk := hT'
      sent := routeDiscovered_deliver hf hs h.sent
      none := ?_
      answered := h.answered.snoc _
      log := ?_
      steps := ?_ }
    · rw [hwire, hfr]
      rfl
    · rw [hlog, hd, htext]
      rfl
    · rw [hcount]
      omega

include hsd hwf hf hc hs in
/-- After the reply no DATA is delivered. -/
lemma Served.stay (h : nw.Served s d client text tr σ) :
    nw.Served s d client text (tr ++ [(σ, .deliver i io)]) σ' := by
  have hmem := mem_wire_of_getElem hf
  have hty : f.pack.type ≠ .data := by
    intro hdata
    have hin : f ∈ dataWire σ := List.mem_filter.mpr ⟨hmem, by simpa using hdata⟩
    rw [h.none] at hin
    simp at hin
  exact {
    talk := h.talk.deliver hsd hwf hf hc hs
    sent := routeDiscovered_deliver hf hs h.sent
    none := by
      rw [dataWire_of_ne hf hs hty, no_data_sent hty (h.talk.not_arrives hmem h.sent), h.none,
        List.append_nil]
    answered := h.answered.snoc _
    log := (unixLog_of_ne_data hf hty).trans h.log
    steps := by
      rw [dataSteps_snoc_of_ne hf hty]
      exact h.steps }

include hk hsd hifs hwf hf hc hio hs in
/-- **Every delivery keeps the phase or leads to the next one.** -/
theorem Phase.deliver (h : nw.Phase s d client tr σ) :
    nw.Phase s d client (tr ++ [(σ, .deliver i io)]) σ' := by
  cases h with
  | seeking lvl h =>
    by_cases ha : nw.Arrives σ f
    · exact .asking (h.arrive hsd hifs hwf hf hc hs ha)
    · obtain ⟨lvl', h'⟩ := h.stay hk hsd hwf hf hc hs ha
      exact .seeking lvl' h'
  | asking h =>
    by_cases hty : f.pack.type = .data
    · rcases h.move hsd hifs hwf hf hc hio hs hty with h' | ⟨text, h'⟩
      · exact .asking h'
      · exact .replying text h'
    · exact .asking (h.stay hsd hwf hf hc hs hty)
  | replying text h =>
    by_cases hty : f.pack.type = .data
    · rcases h.move hsd hifs hwf hf hc hs hty with h' | h'
      · exact .replying text h'
      · exact .served text h'
    · exact .replying text (h.stay hsd hwf hf hc hs hty)
  | served text h => exact .served text (h.stay hsd hwf hf hc hs)

end Deliver

/-! ## The run -/

/-- The request sets off the search for a route. -/
lemma seeking_of_request {nw : NamedNetwork k} (hsd : s ≠ d) (h : σ.Initial) {req : OdrReq}
    (hok : nw.ExchangeStep s d σ (.request s client req))
    (hs : nw.Steps σ (.request s client req) σ') (hlog : nw.unixLog tr = [])
    (hsteps : dataSteps tr = 0) :
    nw.Seeking s d client (fun _ => 0) (tr ++ [(σ, .request s client req)]) σ' := by
  have hF := flood_of_request hsd h hok hs
  have hnone := findKey_of_request h hs
  have hwire : ∀ t ∈ σ'.wire, t.pack = rreqPack nw.rs (nw.host s) (σ.node s) req ∧
      nw.Owns s t.hwSrc := by
    intro t ht
    obtain ⟨hpack, a, ha, -, hhw⟩ :=
      exists_of_mem_transmit_bcastFrames ((mem_wire_of_request h hs t).mp ht)
    exact ⟨hpack, a, ha, hhw.symm⟩
  exact {
    flood := hF
    talk := {
      src := fun t ht => (hF.pack t ht).1
      dest := fun t ht => (hF.pack t ht).2.1
      taken := hF.taken
      source := hF.source
      client := by
        rw [hs.node_request]
        rfl
      positive := fun n key e he => by
        rw [hnone] at he
        simp at he
      sent := fun t ht => by
        obtain ⟨hpack, hown⟩ := hwire t ht
        refine ⟨s, hown, ?_, ?_⟩
        · rw [hpack]
          exact Or.inl rfl
        · rw [hpack]
          exact ⟨(h.node s).runningBroadcastNo, le_rfl, hsd⟩
      back := fun n e he => by
        rw [hnone] at he
        simp at he
      forth := fun n e he => by
        rw [hnone] at he
        simp at he }
    backed := (Backed.initial h).step (Wf.initial h) (l := .request s client req) trivial hs
    waiting := by
      rw [hs.node_request]
      rfl
    quiet := fun t ht => by
      rw [(hwire t ht).1]
      simp [rreqPack]
    answer := fun t ht hrep => by
      rw [(hwire t ht).1] at hrep
      simp [rreqPack] at hrep
    buffer := by
      rw [hs.node_request_ne (Ne.symm hsd)]
      exact (h.node d).serverTimeReply
    log := by
      rw [unixLog_snoc, hlog]
      rfl
    steps := by
      rw [← hsteps]
      simp [dataSteps, List.countP_append] }

/-- Time changes nothing in an exchange. -/
lemma Phase.tick (h : nw.Phase s d client tr σ) (x : ℕ) :
    nw.Phase s d client (tr ++ [(σ, .tick x)]) { σ with clock := σ.clock + x } := by
  have hT : nw.Talk s d client σ → nw.Talk s d client { σ with clock := σ.clock + x } :=
    fun hT => { hT with }
  have hlog : nw.unixLog (tr ++ [(σ, .tick x)]) = nw.unixLog tr := by
    rw [unixLog_snoc]
    simp [unixAt]
  have hsteps : dataSteps (tr ++ [(σ, .tick x)]) = dataSteps tr := by
    simp [dataSteps, List.countP_append]
  cases h with
  | seeking lvl h =>
    exact .seeking lvl { h with
      flood := h.flood.tick x
      talk := hT h.talk
      backed := { h.backed with }
      log := hlog.trans h.log
      steps := hsteps.trans h.steps }
  | asking h =>
    obtain ⟨t, y, hone, hdir, hts, h9, hB, hw, hy, hn⟩ := h.token
    exact .asking { h with
      talk := hT h.talk
      token := ⟨t, y, hone, hdir, hts, h9, { hB with }, hw, hy, by rw [hsteps]; exact hn⟩
      log := hlog.trans h.log }
  | replying text h =>
    obtain ⟨t, y, hone, hdir, htd, htext, hB, hw, hy, hyH, hn⟩ := h.token
    exact .replying text { h with
      talk := hT h.talk
      token := ⟨t, y, hone, hdir, htd, htext, { hB with }, hw, hy, hyH, by rw [hsteps]; exact hn⟩
      answered := h.answered.snoc _
      log := hlog.trans h.log }
  | served text h =>
    exact .served text { h with
      talk := hT h.talk
      answered := h.answered.snoc _
      log := hlog.trans h.log
      steps := hsteps ▸ h.steps }

lemma Phase.talk (h : nw.Phase s d client tr σ) : nw.Talk s d client σ := by
  cases h with
  | seeking lvl h => exact h.talk
  | asking h => exact h.talk
  | replying text h => exact h.talk
  | served text h => exact h.talk

/-- **An exchange is in one of its phases**, once the client has asked. -/
theorem phase_of_run {nw : NamedNetwork k} (hk : k ≤ 10) (hsd : s ≠ d)
    (hifs : ∀ n, (nw.ifs n).Nodup) (hr : nw.system.Run (nw.ExchangeStep s d) tr σ) :
    (σ.Initial ∧ nw.latestRequest tr s = none ∧ nw.unixLog tr = [] ∧ dataSteps tr = 0) ∨
      ∃ client, Asked tr s client ∧ nw.Phase s d client tr σ := by
  refine hr.invariant (I := fun tr σ =>
    (σ.Initial ∧ nw.latestRequest tr s = none ∧ nw.unixLog tr = [] ∧ dataSteps tr = 0) ∨
      ∃ client, Asked tr s client ∧ nw.Phase s d client tr σ)
    (fun σ h => Or.inl ⟨h, rfl, rfl, rfl⟩) ?_
  intro tr σ l σ' hr hI hok hs
  have hs := steps_of_step hs
  have hwf := wf_of_reach hr.reach
  rcases hI with ⟨h, hreq, hlog, hsteps⟩ | ⟨client, hasked, hP⟩
  -- before the request nothing is in flight
  · cases l with
    | request n c req =>
      obtain rfl : n = s := hok.1
      exact Or.inr ⟨c, ⟨(σ, .request n c req), by simp, by simp [clientAt]⟩,
        .seeking _ (seeking_of_request hsd h hok hs hlog hsteps)⟩
    | deliver i io =>
      cases hs with
      | deliver _ _ f hf =>
        rw [h.wire] at hf
        simp at hf
    | lose i => exact absurd hok id
    | tick x =>
      cases hs with
      | tick _ =>
        refine Or.inl ⟨⟨h.node, h.wire⟩, ?_, ?_, ?_⟩
        · rw [latestRequest_snoc, hreq]
          rfl
        · rw [unixLog_snoc, hlog]
          rfl
        · rw [← hsteps]
          simp [dataSteps, List.countP_append]
  · refine Or.inr ⟨client, hasked.mono _, ?_⟩
    cases l with
    -- the broadcast number of `s` shows that the one request has been taken
    | request n c req => exact absurd (hok.2.1 s) hP.talk.taken
    | deliver i io =>
      have hs' := hs
      cases hs with
      | deliver _ _ f hf => exact hP.deliver hk hsd hifs hwf hf (hok f hf).1 (hok f hf).2 hs'
    | lose i => exact absurd hok id
    | tick x =>
      cases hs with
      | tick _ => exact hP.tick x

end Network

end Odr
