/-
# The DATA packets of a request

A node originates a DATA packet in two places: `main` does when a request finds a route in the
table, and `process_pack` does when an RREP reaches its source while `route_discovered` is 0.
The flag is all that ties the second to a request: an RREP does not say which request it
answers, and `main` clears the flag even when it has just sent the DATA packet itself.

The history of a run is its trace.  `latestRequest` is the last request of a node, and `served`
the destinations of the DATA packets that the node has originated since, one for each frame that
it has handed over: a packet leaves once for each time that `if_info_list` lists the interface of
its route.
-/
import Odr.Network.DataDirection

namespace Odr

open Lab Transition.System

/-- The destinations of the request packets among some frames, one for each frame. -/
def dataDests (fr : List Frame) : List CanIp :=
  (fr.filter fun g => g.pack.type = .data ∧ g.pack.srcDest = 1).map (·.pack.destCanIpStr)

lemma dataDests_of_forall {fr : List Frame} {q : OdrPack} (hq : ∀ g ∈ fr, g.pack = q)
    (hty : q.type = .data) (hdir : q.srcDest = 1) :
    dataDests fr = List.replicate fr.length q.destCanIpStr := by
  have hall : fr.filter (fun g => g.pack.type = .data ∧ g.pack.srcDest = 1) = fr :=
    List.filter_eq_self.mpr fun g hg => by simp [hq g hg, hty, hdir]
  rw [dataDests, hall]
  refine List.eq_replicate_iff.mpr ⟨List.length_map .., fun d hd => ?_⟩
  obtain ⟨g, hg, rfl⟩ := List.mem_map.mp hd
  rw [hq g hg]

lemma dataDests_eq_nil {fr : List Frame} (h : ∀ g ∈ fr, g.pack.type ≠ .data) :
    dataDests fr = [] := by
  rw [dataDests, List.filter_eq_nil_iff.mpr]
  · rfl
  · intro g hg
    simp [h g hg]

section

variable {rs : Resolver} {h : Host} {io : UnixIo} {now : ℤ} {s s' : Node} {p : OdrPack}
  {srcHw : HwAddr} {recvIf : ℤ} {fr : List Frame} {ux : List UnixSend}

/-- `route_discovered` is set by the first RREP that is read at its source. -/
lemma Handled.routeDiscovered (H : Handled rs h io now s p srcHw recvIf s' fr ux) :
    s'.routeDiscovered =
      if p.type = .rrep ∧ p.WithinMaxh ∧ isSelfSrc h p.srcCanIpStr = 1 ∧ s.routeDiscovered = 0
      then 1 else s.routeDiscovered := by
  cases H with
  | dropped hop => rw [if_neg fun h' => hop h'.2.1]
  | unknown hop n hty => rw [if_neg (by simp [hty])]
  | rreqKnown hop hty => rw [if_neg (by simp [hty])]; rfl
  | rreqDest hop hty => rw [if_neg (by simp [hty])]; rfl
  | rreqDup hop hty => rw [if_neg (by simp [hty])]; rfl
  | rreqFlood hop hty => rw [if_neg (by simp [hty])]; rfl
  | rreqAnswer hop hty => rw [if_neg (by simp [hty])]; rfl
  | rrepSource hop hty hself hrd => rw [if_pos ⟨hty, hop, hself, hrd⟩]
  | rrepLate hop hty hself hrd => rw [if_neg fun h' => hrd h'.2.2.2]; rfl
  | rrepLost hop hty hself => rw [if_neg fun h' => hself h'.2.2.1]; rfl
  | rrepRelay hop hty hself => rw [if_neg fun h' => hself h'.2.2.1]; rfl
  | dataClient hop hty => rw [if_neg (by simp [hty])]; rfl
  | dataTimeout hop hty => rw [if_neg (by simp [hty])]; rfl
  | dataTurn hop hty => rw [if_neg (by simp [hty])]; rfl
  | dataToServer hop hty => rw [if_neg (by simp [hty])]; rfl
  | dataToClient hop hty => rw [if_neg (by simp [hty])]; rfl
  | dataStray hop hty => rw [if_neg (by simp [hty])]; rfl

/-- A later RREP, or one with too many hops, has no effect at its source. -/
lemma Handled.not_arrived (H : Handled rs h io now s p srcHw recvIf s' fr ux)
    (hty : p.type = .rrep) (hself : isSelfSrc h p.srcCanIpStr = 1)
    (hno : p.WithinMaxh → s.routeDiscovered ≠ 0) :
    fr = [] ∧ s'.routeDiscovered = s.routeDiscovered := by
  have hrd := H.routeDiscovered
  rw [if_neg fun h' => hno h'.2.1 h'.2.2.2] at hrd
  refine ⟨?_, hrd⟩
  cases H with
  | dropped => rfl
  | rrepLate => rfl
  | rrepSource hop _ _ hrd' => exact absurd hrd' (hno hop)
  | rrepLost _ _ hne => exact absurd hself hne
  | rrepRelay _ _ hne => exact absurd hself hne
  | _ => simp_all

end

namespace Network

variable {k : ℕ} {nw : Network k}

/-- What a request asks for: the destination it names, and whether the table has a route. -/
structure Request where
  dest : CanIp
  cached : Bool

/-- The request of a step at the node `n`. -/
def requestAt (nw : Network k) (n : Fin k) (x : Net k × Label k) : Option Request :=
  match x.2 with
  | .request m _ req =>
      if m = n then
        some ⟨CanIp.cut (requestDest nw.rs (x.1.node n) req),
          skipDiscovery nw.rs (x.1.node n) req⟩
      else none
  | _ => none

/-- The latest request of a node. -/
def latestRequest (nw : Network k) (tr : List (Net k × Label k)) (n : Fin k) : Option Request :=
  lastOf (nw.requestAt n) tr

/-- The destinations of the DATA packets that the node `n` originates in a step. -/
def originated (nw : Network k) (n : Fin k) (x : Net k × Label k) : List CanIp :=
  match x.2 with
  | .request m client req => if m = n then dataDests (nw.request x.1 m client req).sent else []
  | .deliver i io =>
      ((x.1.wire[i]?).map fun f =>
        if f.dst = n ∧ f.pack.type = .rrep then dataDests (nw.receive x.1 f io).sent
        else []).getD []
  | _ => []

/-- The destinations of the DATA packets that a node has originated since its latest request,
the one of the request itself included. -/
def served (nw : Network k) (n : Fin k) (tr : List (Net k × Label k)) : List CanIp :=
  tr.foldl (fun ds x => (if (nw.requestAt n x).isSome then [] else ds) ++ nw.originated n x) []

lemma served_snoc (n : Fin k) (tr : List (Net k × Label k)) (x : Net k × Label k) :
    nw.served n (tr ++ [x]) =
      (if (nw.requestAt n x).isSome then [] else nw.served n tr) ++ nw.originated n x := by
  rw [served, List.foldl_append]
  rfl

/-- What is asked of a step: every request has caused at most one DATA packet, which goes to the
destination it names, and an RREP for another destination has no effect. -/
structure Serves (nw : Network k) (pre : List (Net k × Label k)) (x : Net k × Label k) :
    Prop where
  once : ∀ n, (nw.served n (pre ++ [x])).length ≤ 1
  named : ∀ n, ∀ d ∈ nw.served n (pre ++ [x]),
    ∃ r, nw.latestRequest (pre ++ [x]) n = some r ∧ r.dest = d
  other : ∀ i io f, x.2 = .deliver i io → x.1.wire[i]? = some f → f.pack.type = .rrep →
    f.pack.srcCanIpStr = nw.addr f.dst →
    (∀ r, nw.latestRequest pre f.dst = some r → r.dest ≠ f.pack.destCanIpStr) →
    (nw.receive x.1 f io).sent = [] ∧
      (nw.receive x.1 f io).node.routeDiscovered = (x.1.node f.dst).routeDiscovered

/-- The copy is an RREP that is read at its source while `route_discovered` is 0. -/
def Arrives (nw : Network k) (σ : Net k) (f : Transit k) : Prop :=
  f.pack.type = .rrep ∧ f.pack.WithinMaxh ∧ f.pack.srcCanIpStr = nw.addr f.dst ∧
    (σ.node f.dst).routeDiscovered = 0

instance (σ : Net k) (f : Transit k) : Decidable (nw.Arrives σ f) :=
  inferInstanceAs (Decidable (f.pack.type = .rrep ∧ f.pack.WithinMaxh ∧ _ ∧ _))

/-- Every RREP that is read at its source while `route_discovered` is 0 names the destination
of the node's latest request, and that request found no route in the table. -/
def Answers (nw : Network k) (pre : List (Net k × Label k)) (x : Net k × Label k) : Prop :=
  ∀ i io f, x.2 = .deliver i io → x.1.wire[i]? = some f → nw.Arrives x.1 f →
    ∃ r, nw.latestRequest pre f.dst = some r ∧ r.cached = false ∧ r.dest = f.pack.destCanIpStr

/-- The route along which the node `n` originates DATA in a step, if it does: the one that the
request finds in the table, or the one in the table once `update_rtbl_entry` has read the RREP. -/
def routeOut (nw : Network k) (n : Fin k) (x : Net k × Label k) : Option RtblEntry :=
  match x.2 with
  | .request m _ req =>
      if m = n ∧ skipDiscovery nw.rs (x.1.node m) req then
        findKey (getIndexFromIp nw.rs (requestDest nw.rs (x.1.node m) req)) (x.1.node m).rtbl
      else none
  | .deliver i _ => (x.1.wire[i]?).bind fun f =>
      if f.dst = n ∧ nw.Arrives x.1 f then findKey (destKey nw.rs f.pack) (nw.learned x.1 f).rtbl
      else none
  | _ => none

/-- How often a node lists the interface of an entry. -/
def listings (nw : Network k) (n : Fin k) (e : RtblEntry) : ℕ :=
  (nw.ifs n).countP fun i => e.ifNo = i.sllIfindex

/-- Whenever a node originates DATA it lists the interface of the route once. -/
def ListedOnce (nw : Network k) (x : Net k × Label k) : Prop :=
  ∀ n, ∀ e ∈ nw.routeOut n x, nw.listings n e = 1

/-! ## What a step originates -/

/-- The interface of a route is listed. -/
lemma Linked.listings_pos {n : Fin k} {e : RtblEntry} (hl : nw.Linked n e.nextHopHwaddr e.ifNo) :
    0 < nw.listings n e := by
  obtain ⟨m, i, -, j, hj, -, hidx, -⟩ := hl
  exact List.countP_pos_iff.mpr ⟨j, hj, by simp [hidx]⟩

/-- A node that lists each interface once lists the interface of a route once. -/
lemma listings_eq_one {n : Fin k} (hifs : (nw.ifs n).Nodup) {e : RtblEntry}
    (hl : nw.Linked n e.nextHopHwaddr e.ifNo) : nw.listings n e = 1 := by
  obtain ⟨m, i, -, j, hj, -, hidx, -⟩ := hl
  rw [listings, List.countP_eq_length_filter, ← hidx, filter_index_eq_singleton hifs hj]
  rfl

/-- The route along which a node originates DATA is one of its links. -/
lemma linked_of_routeOut {σ : Net k} {l : Label k} (hwf : nw.Wf σ) {n : Fin k} {e : RtblEntry}
    (he : nw.routeOut n (σ, l) = some e) : nw.Linked n e.nextHopHwaddr e.ifNo := by
  cases l with
  | request m client req =>
    simp only [routeOut] at he
    split at he
    · next h =>
      obtain ⟨rfl, -⟩ := h
      exact hwf.route m _ e he
    · simp at he
  | deliver i io =>
    obtain ⟨f, hf, hroute⟩ := Option.bind_eq_some_iff.mp he
    split at hroute
    · next h =>
      obtain ⟨rfl, -⟩ := h
      exact linked_of_findKey_learned hwf (mem_wire_of_getElem hf) hroute
    · simp at hroute
  | lose i => simp [routeOut] at he
  | tick d => simp [routeOut] at he

/-- A request packet sent along a route leaves once for each listing of its interface. -/
lemma dataDests_payloadFrames {n : Fin k} {t : Rtbl} {q : OdrPack} {key : ℤ} {e : RtblEntry}
    (ht : KeyNodup t) (he : findKey key t = some e) (hty : q.type = .data)
    (hdir : q.srcDest = 1) :
    dataDests (payloadFrames (nw.ifs n) t q key) =
      List.replicate (nw.listings n e) q.destCanIpStr := by
  rw [dataDests_of_forall (fun g hg => pack_of_mem_payloadFrames hg) hty hdir,
    payloadFrames_of_findKey ht he, length_llFrames, listings]

/-- A request that finds a route originates DATA for the destination it names. -/
lemma dataDests_cached {σ : Net k} (hwf : nw.Wf σ) {n : Fin k} (client : UnAddr) {req : OdrReq}
    (hskip : skipDiscovery nw.rs (σ.node n) req = true) :
    ∃ e, findKey (getIndexFromIp nw.rs (requestDest nw.rs (σ.node n) req)) (σ.node n).rtbl
        = some e ∧
      dataDests (nw.request σ n client req).sent =
        List.replicate (nw.listings n e) (CanIp.cut (requestDest nw.rs (σ.node n) req)) := by
  have hex : entryExistsForSrc (getIndexFromIp nw.rs (requestDest nw.rs (σ.node n) req))
      (σ.node n).rtbl ≠ 0 := by
    have h := of_decide_eq_true hskip
    exact h.1
  obtain ⟨e, he⟩ := entryExistsForSrc_ne_zero.mp hex
  refine ⟨e, he, ?_⟩
  rw [request, mainRequest_sent, if_pos hskip]
  exact dataDests_payloadFrames (hwf.nodup n) he rfl rfl

/-- A request that finds no route originates no DATA. -/
lemma dataDests_uncached {σ : Net k} {n : Fin k} {client : UnAddr} {req : OdrReq}
    (hskip : skipDiscovery nw.rs (σ.node n) req = false) :
    dataDests (nw.request σ n client req).sent = [] := by
  rw [request, mainRequest_sent, hskip]
  refine dataDests_eq_nil fun g hg => ?_
  rw [pack_of_mem_bcastFrames hg]
  simp [rreqPack]

/-- An RREP that arrives originates DATA along the route in the updated table. -/
lemma dataDests_receive {nw : NamedNetwork k} {σ : Net k} (hwf : nw.Wf σ) {f : Transit k}
    (ha : nw.Arrives σ f) (io : UnixIo) :
    ∃ e, findKey (destKey nw.rs f.pack) (nw.learned σ f).rtbl = some e ∧
      dataDests (nw.receive σ f io).sent =
        List.replicate (nw.listings f.dst e) f.pack.destCanIpStr := by
  obtain ⟨hty, hop, hself, hrd⟩ := ha
  have ho : nw.DataOut σ io f (f.pack.request (σ.node f.dst).msg) (destKey nw.rs f.pack) :=
    .source hty hself hrd
  have hoff : nw.offerOf σ f = some (destOffer nw.rs σ.clock f.pack f.hwSrc f.ifindex
      f.pack.rreq.hop f.pack.rrep.hop) := by rw [offerOf, offer, hty]
  obtain ⟨e, he, -⟩ := exists_findKey_offer (nw.host f.dst).sp
    (t := (σ.node f.dst).rtbl) hoff (by simp [hty])
  refine ⟨e, he, ?_⟩
  rw [sent_of_dataOut (nw.receive_handled σ f io) hop ho]
  exact dataDests_payloadFrames (q := f.pack.request (σ.node f.dst).msg)
    (keyNodup_updateRtblEntry _ (hwf.nodup f.dst)) he rfl rfl

/-- An RREP that does not arrive originates nothing. -/
lemma dataDests_receive_eq_nil {nw : NamedNetwork k} {σ : Net k} {f : Transit k}
    (hty : f.pack.type = .rrep) (ha : ¬nw.Arrives σ f) (io : UnixIo) :
    dataDests (nw.receive σ f io).sent = [] := by
  refine dataDests_eq_nil fun g hg hdata => ?_
  obtain ⟨hop, q, key, ho, -⟩ := dataOut_of_handled (nw.receive_handled σ f io) hg hdata
  cases ho with
  | source _ hself hrd => exact ha ⟨hty, hop, hself, hrd⟩
  | turn h => simp [hty] at h
  | pass h => simp [hty] at h

/-- An RREP that is read at its source but does not arrive has no effect there. -/
lemma receive_of_not_arrives {nw : NamedNetwork k} {σ : Net k} {f : Transit k}
    (hty : f.pack.type = .rrep) (hself : f.pack.srcCanIpStr = nw.addr f.dst) (ha : ¬nw.Arrives σ f)
    (io : UnixIo) :
    (nw.receive σ f io).sent = [] ∧
      (nw.receive σ f io).node.routeDiscovered = (σ.node f.dst).routeDiscovered :=
  (nw.receive_handled σ f io).not_arrived hty (isSelfSrc_eq_one.mpr hself)
    fun hop hrd => ha ⟨hty, hop, hself, hrd⟩

/-- An RREP that arrives sets `route_discovered`. -/
lemma routeDiscovered_of_arrives {nw : NamedNetwork k} {σ : Net k} {f : Transit k}
    (ha : nw.Arrives σ f) (io : UnixIo) :
    (nw.receive σ f io).node.routeDiscovered = 1 := by
  obtain ⟨hty, hop, hself, hrd⟩ := ha
  rw [(nw.receive_handled σ f io).routeDiscovered,
    if_pos ⟨hty, hop, isSelfSrc_eq_one.mpr hself, hrd⟩]

/-- A packet that is no arriving RREP leaves `route_discovered` as it is. -/
lemma routeDiscovered_of_not_arrives {nw : NamedNetwork k} {σ : Net k} {f : Transit k}
    (ha : ¬nw.Arrives σ f) (io : UnixIo) :
    (nw.receive σ f io).node.routeDiscovered = (σ.node f.dst).routeDiscovered := by
  rw [(nw.receive_handled σ f io).routeDiscovered, if_neg]
  rintro ⟨hty, hop, hself, hrd⟩
  exact ha ⟨hty, hop, isSelfSrc_eq_one.mp hself, hrd⟩

/-! ## One step of the history -/

/-- What the step `x` does to the history of the node `n`: nothing, or it is a request of the
node that finds no route or one that does, or the arrival of an RREP. -/
inductive HistoryStep (nw : Network k) (n : Fin k) (x : Net k × Label k) (s' : Node) : Prop
  | none (hreq : nw.requestAt n x = none) (hout : nw.routeOut n x = none)
      (horig : nw.originated n x = []) (hrd : s'.routeDiscovered = (x.1.node n).routeDiscovered)
      (hno : ∀ i io f, x.2 = .deliver i io → x.1.wire[i]? = some f → f.dst = n →
        ¬nw.Arrives x.1 f)
  | asked (r : Request) (hreq : nw.requestAt n x = some r) (hc : r.cached = false)
      (hout : nw.routeOut n x = Option.none) (horig : nw.originated n x = [])
      (hno : ∀ i io, x.2 ≠ .deliver i io)
  | cached (r : Request) (e : RtblEntry) (hreq : nw.requestAt n x = some r)
      (hc : r.cached = true) (hout : nw.routeOut n x = some e) (hpos : 0 < nw.listings n e)
      (horig : nw.originated n x = List.replicate (nw.listings n e) r.dest)
      (hno : ∀ i io, x.2 ≠ .deliver i io)
  | arrival (i : ℕ) (io : UnixIo) (f : Transit k) (e : RtblEntry) (hx : x.2 = .deliver i io)
      (hf : x.1.wire[i]? = some f) (hn : f.dst = n) (ha : nw.Arrives x.1 f)
      (hreq : nw.requestAt n x = Option.none) (hout : nw.routeOut n x = some e)
      (hpos : 0 < nw.listings n e)
      (horig : nw.originated n x = List.replicate (nw.listings n e) f.pack.destCanIpStr)
      (hrd : s'.routeDiscovered = 1)

lemma historyStep {nw : NamedNetwork k} {σ σ' : Net k} {l : Label k} (hwf : nw.Wf σ)
    (hs : nw.Steps σ l σ') (n : Fin k) : nw.HistoryStep n (σ, l) (σ'.node n) := by
  have hs' := hs
  cases hs with
  | request m client req =>
    by_cases hm : m = n
    · subst hm
      cases hskip : skipDiscovery nw.rs (σ.node m) req with
      | false =>
        refine .asked ⟨_, _⟩ (if_pos rfl) hskip (if_neg (by simp [hskip])) ?_ (by simp)
        exact (if_pos rfl).trans (dataDests_uncached hskip)
      | true =>
        obtain ⟨e, he, hdests⟩ := dataDests_cached hwf client hskip
        exact .cached ⟨_, _⟩ e (if_pos rfl) hskip ((if_pos ⟨rfl, hskip⟩).trans he)
          (hwf.route m _ e he).listings_pos ((if_pos rfl).trans hdests) (by simp)
    · refine .none (if_neg hm) (if_neg fun h => hm h.1) (if_neg hm) ?_ (by simp)
      exact congrArg _ (Function.update_of_ne (Ne.symm hm) ..)
  | deliver i io f hf =>
    have horig : nw.originated n (σ, .deliver i io) =
        if f.dst = n ∧ f.pack.type = .rrep then dataDests (nw.receive σ f io).sent else [] := by
      simp only [originated, hf]
      rfl
    have hout : nw.routeOut n (σ, .deliver i io) =
        if f.dst = n ∧ nw.Arrives σ f then
          findKey (destKey nw.rs f.pack) (nw.learned σ f).rtbl else none := by
      simp only [routeOut, hf]
      rfl
    have hthis : ∀ j io' f', Label.deliver (k := k) i io = .deliver j io' →
        σ.wire[j]? = some f' → f' = f := by
      intro j io' f' heq hf'
      cases heq
      exact Option.some_injective _ (hf'.symm.trans hf)
    by_cases hn : f.dst = n
    · subst hn
      by_cases ha : nw.Arrives σ f
      · obtain ⟨e, he, hdests⟩ := dataDests_receive hwf ha io
        have hl := linked_of_findKey_learned hwf (mem_wire_of_getElem hf) he
        refine .arrival i io f e rfl hf rfl ha rfl (hout.trans ((if_pos ⟨rfl, ha⟩).trans he))
          hl.listings_pos (horig.trans ((if_pos ⟨rfl, ha.1⟩).trans hdests)) ?_
        rw [hs'.node_dst hf]
        exact routeDiscovered_of_arrives ha io
      · refine .none rfl (hout.trans (if_neg fun h => ha h.2)) ?_ ?_
          fun j io' f' heq hf' _ => by rw [hthis j io' f' heq hf']; exact ha
        · rw [horig]
          split
          · next h => exact dataDests_receive_eq_nil h.2 ha io
          · rfl
        · rw [hs'.node_dst hf]
          exact routeDiscovered_of_not_arrives ha io
    · refine .none rfl (hout.trans (if_neg fun h => hn h.1)) (horig.trans (if_neg fun h => hn h.1))
        ?_ fun j io' f' heq hf' hn' => ?_
      · exact congrArg _ (Function.update_of_ne (Ne.symm hn) ..)
      · rw [hthis j io' f' heq hf'] at hn'
        exact absurd hn' hn
  | lose i f hf => exact .none rfl rfl rfl rfl (by simp)
  | tick d => exact .none rfl rfl rfl rfl (by simp)

lemma latestRequest_snoc (tr : List (Net k × Label k)) (x : Net k × Label k) (n : Fin k) :
    nw.latestRequest (tr ++ [x]) n = (nw.requestAt n x).or (nw.latestRequest tr n) :=
  lastOf_snoc _ tr x

/-- How the history and the flag hang together: a request that found a route has been served,
and one that did not has not while the flag is 0. -/
def Tallied (nw : Network k) (tr : List (Net k × Label k)) (σ : Net k) : Prop :=
  ∀ n r, nw.latestRequest tr n = some r →
    (r.cached = true → nw.served n tr ≠ []) ∧
      (r.cached = false → (σ.node n).routeDiscovered = 0 → nw.served n tr = [])

lemma Tallied.step {nw : NamedNetwork k} {tr : List (Net k × Label k)} {σ σ' : Net k} {l : Label k}
    (hwf : nw.Wf σ) (ht : nw.Tallied tr σ) (hs : nw.Steps σ l σ') :
    nw.Tallied (tr ++ [(σ, l)]) σ' := by
  intro n r hr
  rw [latestRequest_snoc] at hr
  rw [served_snoc]
  cases historyStep hwf hs n with
  | none hreq hout horig hrd hno =>
    rw [hreq, Option.none_or] at hr
    rw [hreq, horig, hrd]
    simpa using ht n r hr
  | asked r' hreq hc hout horig hno =>
    rw [hreq, Option.some_or] at hr
    obtain rfl := Option.some_injective _ hr
    rw [hreq, horig]
    exact ⟨fun hc' => by simp [hc] at hc', fun _ _ => by simp⟩
  | cached r' e hreq hc hout hpos horig hno =>
    rw [hreq, Option.some_or] at hr
    obtain rfl := Option.some_injective _ hr
    rw [hreq, horig]
    exact ⟨fun _ => by simp [hpos.ne'], fun hc' => by simp [hc] at hc'⟩
  | arrival i io f e hx hf hn ha hreq hout hpos horig hrd =>
    rw [hreq, horig, hrd]
    exact ⟨fun _ => by simp [hpos.ne'], fun _ h => absurd h (by decide)⟩

/-- What is asked of the history of a node. -/
def Ok (nw : Network k) (tr : List (Net k × Label k)) (n : Fin k) : Prop :=
  (nw.served n tr).length ≤ 1 ∧
    ∀ d ∈ nw.served n tr, ∃ r, nw.latestRequest tr n = some r ∧ r.dest = d

/-- A step that serves the requests lists the interfaces of its routes once. -/
lemma Serves.listedOnce {nw : NamedNetwork k} {tr : List (Net k × Label k)} {σ σ' : Net k}
    {l : Label k} (h : nw.Serves tr (σ, l)) (hwf : nw.Wf σ) (hs : nw.Steps σ l σ') :
    nw.ListedOnce (σ, l) := by
  intro n e he
  have honce := h.once n
  rw [served_snoc, List.length_append] at honce
  rw [Option.mem_def] at he
  cases historyStep hwf hs n with
  | none hreq hout => simp [hout] at he
  | asked r hreq hc hout => simp [hout] at he
  | cached r e' hreq hc hout hpos horig hno =>
    obtain rfl := Option.some_injective _ (he.symm.trans hout)
    rw [horig, List.length_replicate] at honce
    omega
  | arrival i io f e' hx hf hn ha hreq hout hpos horig hrd =>
    obtain rfl := Option.some_injective _ (he.symm.trans hout)
    rw [horig, List.length_replicate] at honce
    omega

/-- **A step serves the requests exactly when the RREP that arrives in it answers one**, and the
interface of the route that the DATA takes is listed once. -/
lemma serves_iff {nw : NamedNetwork k} {tr : List (Net k × Label k)} {σ σ' : Net k} {l : Label k}
    (hwf : nw.Wf σ) (ht : nw.Tallied tr σ) (hok : ∀ n, nw.Ok tr n) (hs : nw.Steps σ l σ') :
    nw.Serves tr (σ, l) ↔ nw.Answers tr (σ, l) ∧ nw.ListedOnce (σ, l) := by
  constructor
  · intro h
    refine ⟨fun i io f hx hf ha => ?_, h.listedOnce hwf hs⟩
    have honce := h.once f.dst
    have hnamed := h.named f.dst
    rw [served_snoc] at honce hnamed
    cases historyStep hwf hs f.dst with
    | none hreq hout horig hrd hno => exact absurd ha (hno i io f hx hf rfl)
    | asked r hreq hc hout horig hno => exact absurd hx (hno i io)
    | cached r e hreq hc hout hpos horig hno => exact absurd hx (hno i io)
    | arrival j io' f' e hx' hf' hn ha' hreq hout hpos horig hrd =>
      obtain ⟨rfl, rfl⟩ : i = j ∧ io = io' := by simpa using hx.symm.trans hx'
      obtain rfl : f = f' := Option.some_injective _ (hf.symm.trans hf')
      rw [hreq, horig] at honce hnamed
      rw [latestRequest_snoc, hreq, Option.none_or] at hnamed
      obtain ⟨r, hr, hdest⟩ := hnamed f.pack.destCanIpStr (by simp [hpos.ne'])
      refine ⟨r, hr, ?_, hdest⟩
      -- the DATA packet sent now is the only one since the request, so none was sent before
      have hnil : nw.served f.dst tr = [] := by
        have hlen : (nw.served f.dst tr).length + nw.listings f.dst e ≤ 1 := by simpa using honce
        exact List.length_eq_zero_iff.mp (by omega)
      by_contra hc
      exact (ht f.dst r hr).1 (by simpa using hc) hnil
  · rintro ⟨h, hlisted⟩
    have hstep : ∀ n, nw.Ok (tr ++ [(σ, l)]) n := by
      intro n
      rw [Ok, served_snoc, latestRequest_snoc]
      cases historyStep hwf hs n with
      | none hreq hout horig hrd hno =>
        rw [hreq, horig, Option.none_or]
        simpa [Ok] using hok n
      | asked r hreq hc hout horig hno =>
        rw [hreq, horig, Option.some_or]
        simp
      | cached r e hreq hc hout hpos horig hno =>
        rw [hreq, horig, Option.some_or, hlisted n e hout]
        simp
      | arrival i io f e hx hf hn ha hreq hout hpos horig hrd =>
        subst hn
        obtain ⟨r, hr, hc, hdest⟩ := h i io f hx hf ha
        -- the pending request has not been served while the flag is 0
        have hnil := (ht f.dst r hr).2 hc ha.2.2.2
        rw [hreq, horig, hnil, Option.none_or, hr, hlisted f.dst e hout]
        simp [hdest]
    refine ⟨fun n => (hstep n).1, fun n => (hstep n).2, fun i io f hx hf hty hself hother => ?_⟩
    refine receive_of_not_arrives hty hself (fun ha => ?_) io
    obtain ⟨r, hr, -, hdest⟩ := h i io f hx hf ha
    exact hother r hr hdest

/-- The first node of a triangle asks for the third, which gets two copies of the RREQ and
answers both.  The first RREP arrives, a second request finds the route in the table, and then
the second RREP arrives. -/
def triangleLate : List (Label 3) :=
  [asks 0 0 2, .deliver 0 (answering []), .deliver 0 (answering []),
    .deliver 0 (answering []), .deliver 0 (answering []), asks 0 1 2,
    .deliver 0 (answering [])]

end Network

end Odr
