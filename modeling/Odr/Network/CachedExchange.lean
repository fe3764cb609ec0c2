/-
# An exchange over known routes

A request for a node that the table knows sets off no RREQ.  `main` sends the DATA packet at once,
under the headers of the request before, so that its `rreq.hop` is 1 wherever it goes: a node that
it passes on the way to `d` takes the sender for its next hop to `s`, unless its own route says
that `s` is one hop away.  The reply, under the same headers, does the like with the routes
to `d`.

So the request needs no more of the routes to `s` than that the nodes on its way have one.  It
leaves a way that can be gone back, along which the reply returns, and a `Ready` way for the next
request.
-/
import Odr.Network.ExchangeRun
import Odr.Network.OriginHeaders

namespace Odr

open DistanceVector

namespace Network

variable {k : ℕ}

section Defs

variable (nw : Network k) (s d : Fin k)

/-- The route of `a` to `d` leads to `b`, and that of `b` to `s` back to `a`, or straight to `s`. -/
def BothWays (σ : Net k) (a b : Fin k) : Prop :=
  nw.NextHop σ (nw.key d) a b ∧ (nw.NextHop σ (nw.key s) b a ∨ nw.NextHop σ (nw.key s) b s)

/-- The route of `a` to `d` leads to `b`, and that of `b` to `s` leads back to `a`, or straight to
`s`, or has more than one hop, so that a request from `a` makes it lead to `a`. -/
def Forth (σ : Net k) (a b : Fin k) : Prop :=
  nw.NextHop σ (nw.key d) a b ∧ ∃ e, findKey (nw.key s) (σ.node b).rtbl = some e ∧
    (1 < e.hop ∨ nw.Owns a e.nextHopHwaddr ∨ nw.Owns s e.nextHopHwaddr)

/-- The list leads from `s` to `d` and visits no node twice. -/
structure Joins (l : List (Fin k)) : Prop where
  nodup : l.Nodup
  head : l.head? = some s
  last : l.getLast? = some d

/-- The way that a request takes. -/
structure Ready (l : List (Fin k)) (σ : Net k) : Prop where
  joins : Joins s d l
  chain : l.IsChain (nw.Forth s d σ)

/-- A DATA packet of `s` for `d` under the headers of an earlier request. -/
structure Again (dir : ℤ) (p : OdrPack) : Prop where
  type : p.type = .data
  src : p.srcCanIpStr = nw.addr s
  dest : p.destCanIpStr = nw.addr d
  srcDest : p.srcDest = dir
  hop : p.rreq.hop = 1
  within : p.WithinMaxh

/-- The request is on its way, sent by `a`: from `s` to `a` it has left a way back. -/
structure Outbound (pre : List (Fin k)) (a : Fin k) (post : List (Fin k)) (t : Transit k)
    (σ : Net k) : Prop where
  wire : σ.wire = [t]
  pack : nw.Again s d 1 t.pack
  joins : Joins s d (pre ++ a :: t.dst :: post)
  done : (pre ++ [a]).IsChain (nw.BothWays s d σ)
  ahead : (a :: t.dst :: post).IsChain (nw.Forth s d σ)
  sender : nw.Owns a t.hwSrc

/-- The reply is on its way, sent by `a` along its route to `s`. -/
structure Homebound (pre : List (Fin k)) (a : Fin k) (post : List (Fin k)) (t : Transit k)
    (σ : Net k) : Prop where
  wire : σ.wire = [t]
  pack : nw.Again s d (-1) t.pack
  joins : Joins s d (pre ++ a :: post)
  chain : (pre ++ a :: post).IsChain (nw.BothWays s d σ)
  left : pre ≠ []
  sender : nw.Owns a t.hwSrc
  next : nw.NextHop σ (nw.key s) a t.dst

end Defs

variable {nw : Network k} {s d : Fin k} {client : UnAddr} {σ σ' : Net k} {f t : Transit k}
  {i : ℕ} {io : UnixIo} {a b n m : Fin k} {pre post : List (Fin k)} {dir : ℤ}

lemma NextHop.unique {key : ℤ} (h : nw.NextHop σ key n a) (h' : nw.NextHop σ key n b) : a = b := by
  obtain ⟨e, he, ha⟩ := h
  obtain ⟨e', he', hb⟩ := h'
  obtain rfl := Option.some_injective _ (he.symm.trans he')
  exact ha.unique hb

lemma BothWays.forth (h : nw.BothWays s d σ a b) : nw.Forth s d σ a b := by
  obtain ⟨hab, ⟨e, he, hm⟩ | ⟨e, he, hm⟩⟩ := h
  · exact ⟨hab, e, he, Or.inr (Or.inl hm)⟩
  · exact ⟨hab, e, he, Or.inr (Or.inr hm)⟩

/-- The last node of the way is `d`. -/
lemma Joins.last_cases {l : List (Fin k)} (h : Joins s d (l ++ n :: post)) :
    post = [] ∧ n = d ∨ d ∈ post := by
  have hlast := h.last
  rw [List.getLast?_append_of_ne_nil _ (by simp)] at hlast
  cases post with
  | nil => exact Or.inl ⟨rfl, by simpa using hlast⟩
  | cons m post =>
    rw [List.getLast?_cons_cons] at hlast
    exact Or.inr (List.mem_of_getLast? hlast)

/-- The first node of the way is `s`. -/
lemma Joins.mem_source {l : List (Fin k)} (h : Joins s d (l ++ post)) (hl : l ≠ []) : s ∈ l := by
  have hhead := h.head
  rw [List.head?_append_of_ne_nil _ hl] at hhead
  exact List.mem_of_head? hhead

/-! ## What a delivery does to the routes -/

/-- An update that meets no stale entry takes the offer if it has fewer hops. -/
lemma Current.exists_learned (hc : nw.Current σ f) {o : Offer} (ho : nw.offerOf σ f = some o)
    {e : RtblEntry} (he : findKey o.key (σ.node f.dst).rtbl = some e) :
    ∃ e', findKey o.key (nw.learned σ f).rtbl = some e' ∧
      (o.hop < e.hop ∧ e'.nextHopHwaddr = f.hwSrc ∨
        e.hop ≤ o.hop ∧ e'.nextHopHwaddr = e.nextHopHwaddr) := by
  obtain ⟨ip, h⟩ := findKey_updateRtblEntry_some (nw.host f.dst).sp ho he
  refine ⟨_, h, ?_⟩
  have hfresh : o.now - e.ts ≤ (nw.host f.dst).sp := hc o ho e he
  rw [touch_fresh hfresh]
  rcases lt_or_ge o.hop e.hop with hlt | hge
  · refine Or.inl ⟨hlt, ?_⟩
    rw [improve_of_lt hlt]
    exact (offer_nextHop ho).1
  · refine Or.inr ⟨hge, ?_⟩
    rw [improve_of_le hge]
    rfl

section Deliver

variable (hf : σ.wire[i]? = some f) (hs : nw.Steps σ (.deliver i io) σ')
include hf hs

lemma nextHop_deliver_ne {key : ℤ} (hn : n ≠ f.dst) :
    nw.NextHop σ' key n m ↔ nw.NextHop σ key n m := by
  rw [NextHop, hs.node_ne hf hn]
  exact Iff.rfl

/-- Only routes for the key of the offer change. -/
lemma findKey_deliver_of_ne {o : Offer} (ho : nw.offerOf σ f = some o) {key : ℤ}
    (hkey : key ≠ o.key) (n : Fin k) :
    findKey key (σ'.node n).rtbl = findKey key (σ.node n).rtbl := by
  by_cases hn : n = f.dst
  · subst hn
    rw [hs.node_dst hf, rtbl_receive]
    split
    · exact findKey_updateRtblEntry_ne _ ho hkey
    · rfl
  · rw [hs.node_ne hf hn]

lemma nextHop_deliver_of_ne {o : Offer} (ho : nw.offerOf σ f = some o) {key : ℤ}
    (hkey : key ≠ o.key) : nw.NextHop σ' key n m ↔ nw.NextHop σ key n m := by
  rw [NextHop, findKey_deliver_of_ne hf hs ho hkey]
  exact Iff.rfl

end Deliver

lemma Again.offer (h : nw.Again s d 1 f.pack) :
    ∃ o, nw.offerOf σ f = some o ∧ o.key = nw.key s ∧ o.hop = 1 := by
  refine ⟨_, by rw [offerOf, Odr.offer, h.type]; exact if_pos h.srcDest, ?_, h.hop⟩
  exact congrArg nw.idx h.src

lemma Again.offer_back (h : nw.Again s d (-1) f.pack) :
    ∃ o, nw.offerOf σ f = some o ∧ o.key = nw.key d ∧ o.hop = 1 := by
  refine ⟨_, by rw [offerOf, Odr.offer, h.type]; simp only [h.srcDest]; rfl, ?_, h.hop⟩
  exact congrArg nw.idx h.dest

section Routes

variable {nw : NamedNetwork k} (hsd : s ≠ d) (hf : σ.wire[i]? = some f)
  (hs : nw.Steps σ (.deliver i io) σ')
include hsd hf hs

/-- A request changes the receiver's route to `s` only. -/
lemma Again.bothWays_of_ne (hp : nw.Again s d 1 f.pack) (hb : b ≠ f.dst)
    (h : nw.BothWays s d σ a b) : nw.BothWays s d σ' a b := by
  obtain ⟨o, ho, hkey, -⟩ := hp.offer (σ := σ)
  have hne : nw.key d ≠ o.key := fun h => hsd (key_inj (hkey.symm.trans h.symm))
  exact ⟨(nextHop_deliver_of_ne hf hs ho hne).mpr h.1,
    h.2.imp (nextHop_deliver_ne hf hs hb).mpr (nextHop_deliver_ne hf hs hb).mpr⟩

lemma Again.forth_of_ne (hp : nw.Again s d 1 f.pack) (hb : b ≠ f.dst)
    (h : nw.Forth s d σ a b) : nw.Forth s d σ' a b := by
  obtain ⟨o, ho, hkey, -⟩ := hp.offer (σ := σ)
  have hne : nw.key d ≠ o.key := fun h => hsd (key_inj (hkey.symm.trans h.symm))
  refine ⟨(nextHop_deliver_of_ne hf hs ho hne).mpr h.1, ?_⟩
  rw [hs.node_ne hf hb]
  exact h.2

/-- The receiver of a request has a route back to the sender, or straight to `s`. -/
lemma Again.bothWays_of_forth (hp : nw.Again s d 1 f.pack) (hc : nw.Current σ f)
    (ha : nw.Owns a f.hwSrc) (h : nw.Forth s d σ a f.dst) : nw.BothWays s d σ' a f.dst := by
  obtain ⟨o, ho, hkey, hhop⟩ := hp.offer (σ := σ)
  have hne : nw.key d ≠ o.key := fun h => hsd (key_inj (hkey.symm.trans h.symm))
  obtain ⟨hab, e, he, hback⟩ := h
  rw [← hkey] at he
  obtain ⟨e', he', hcase⟩ := hc.exists_learned ho he
  have hroute : findKey (nw.key s) (σ'.node f.dst).rtbl = some e' := by
    rw [hs.node_dst hf, rtbl_receive, if_pos hp.within, ← hkey]
    exact he'
  refine ⟨(nextHop_deliver_of_ne hf hs ho hne).mpr hab, ?_⟩
  rcases hcase with ⟨-, hn⟩ | ⟨hle, hn⟩
  · exact Or.inl ⟨e', hroute, hn ▸ ha⟩
  · rcases hback with hlt | hm | hm
    · omega
    · exact Or.inl ⟨e', hroute, hn ▸ hm⟩
    · exact Or.inr ⟨e', hroute, hn ▸ hm⟩

omit hsd in
/-- After a reply the receiver's route to `d` leads where it led before, or to the sender. -/
lemma Again.nextHop_back (hp : nw.Again s d (-1) f.pack) (hc : nw.Current σ f)
    (ha : nw.Owns a f.hwSrc) (h : nw.NextHop σ (nw.key d) f.dst b) :
    nw.NextHop σ' (nw.key d) f.dst b ∨ nw.NextHop σ' (nw.key d) f.dst a := by
  obtain ⟨o, ho, hkey, hhop⟩ := hp.offer_back (σ := σ)
  obtain ⟨e, he, hm⟩ := h
  rw [← hkey] at he
  obtain ⟨e', he', hcase⟩ := hc.exists_learned ho he
  have hroute : findKey (nw.key d) (σ'.node f.dst).rtbl = some e' := by
    rw [hs.node_dst hf, rtbl_receive, if_pos hp.within, ← hkey]
    exact he'
  rcases hcase with ⟨-, hn⟩ | ⟨-, hn⟩
  · exact Or.inr ⟨e', hroute, hn ▸ ha⟩
  · exact Or.inl ⟨e', hroute, hn ▸ hm⟩

/-- A reply leaves the routes to `s` alone. -/
lemma Again.nextHop_source (hp : nw.Again s d (-1) f.pack) :
    nw.NextHop σ' (nw.key s) n m ↔ nw.NextHop σ (nw.key s) n m := by
  obtain ⟨o, ho, hkey, -⟩ := hp.offer_back (σ := σ)
  exact nextHop_deliver_of_ne hf hs ho fun h => hsd (key_inj (h.trans hkey))

/-- A reply changes the receiver's route to `d` only. -/
lemma Again.bothWays_back (hp : nw.Again s d (-1) f.pack)
    (hroute : a = f.dst → nw.NextHop σ' (nw.key d) a b) (h : nw.BothWays s d σ a b) :
    nw.BothWays s d σ' a b := by
  refine ⟨?_, h.2.imp (hp.nextHop_source hsd hf hs).mpr (hp.nextHop_source hsd hf hs).mpr⟩
  by_cases ha : a = f.dst
  · exact hroute ha
  · exact (nextHop_deliver_ne hf hs ha).mpr h.1

end Routes

/-! ## One copy goes from node to node -/

/-- What a node sends comes from it. -/
lemma owns_of_mem_transmit {frames : List Frame} {cause : Fin k × UnAddr}
    (hfr : ∀ g ∈ frames, g.From (nw.ifs n)) (ht : t ∈ nw.transmit cause frames) :
    nw.Owns n t.hwSrc := by
  obtain ⟨g, hg, -, -, -, -, hsrc, -, -⟩ := mem_transmit.mp ht
  obtain ⟨j, hj, hgj, -⟩ := hfr g hg
  exact ⟨j, hj, by rw [hsrc, hgj]⟩

/-- A payload goes along a route as one copy. -/
lemma single_of_nextHop (hifs : (nw.ifs n).Nodup) (hwf : nw.Wf σ) {key : ℤ}
    (hn : nw.NextHop σ key n m) (q : OdrPack) (cause : Fin k × UnAddr) :
    ∃ c, nw.transmit cause (payloadFrames (nw.ifs n) (σ.node n).rtbl q key) = [c] ∧
      c.pack = q ∧ c.dst = m ∧ nw.Owns n c.hwSrc := by
  obtain ⟨e, he, hm⟩ := hn
  obtain ⟨c, hone, hpack, hown⟩ := transmit_payloadFrames hifs (hwf.nodup n) he
    (hwf.route n key e he) q cause
  have hmem : c ∈ nw.transmit cause (payloadFrames (nw.ifs n) (σ.node n).rtbl q key) := by
    rw [hone]
    exact List.mem_singleton_self c
  exact ⟨c, hone, hpack, hown.unique hm,
    owns_of_mem_transmit (fun g hg => from_of_mem_payloadFrames hg) hmem⟩

/-- The delivery of the only copy leaves what the receiver sends. -/
lemma wire_of_single (hs : nw.Steps σ (.deliver i io) σ') (hf : σ.wire[i]? = some f)
    (hone : σ.wire = [t]) : f = t ∧ σ'.wire = nw.transmit f.cause (nw.receive σ f io).sent := by
  cases hs with
  | deliver _ _ f' hf' =>
    obtain rfl := Option.some_injective _ (hf.symm.trans hf')
    rw [hone] at hf ⊢
    obtain ⟨rfl, rfl⟩ : i = 0 ∧ f = t := by
      cases i with
      | zero => simpa [eq_comm] using hf
      | succ i => simp at hf
    exact ⟨rfl, by simp⟩

lemma rtbl_deliver (hf : σ.wire[i]? = some f) (hs : nw.Steps σ (.deliver i io) σ')
    (hop : f.pack.WithinMaxh) : (nw.learned σ f).rtbl = (σ'.node f.dst).rtbl := by
  rw [hs.node_dst hf, rtbl_receive, if_pos hop]

section Step

variable {nw : NamedNetwork k} (hsd : s ≠ d) (hifs : ∀ n, (nw.ifs n).Nodup) (hwf : nw.Wf σ)
  (hf : σ.wire[i]? = some f) (hc : nw.Current σ f)
  (hio : f.pack.type = .data → f.dst = d → io.answer.isSome) (hs : nw.Steps σ (.deliver i io) σ')
  (hclient : (σ.node s).alClientAddr = some client)
include hsd hifs hwf hf hc hio hs hclient

/-- **The request goes one hop on**, and leaves a way back; or it has come to `d`, which asks its
time server and sends the reply. -/
theorem Outbound.deliver (h : nw.Outbound s d pre a post t σ) :
    ((nw.receive σ f io).unix = [] ∧ ∃ c m post', post = m :: post' ∧
        nw.Outbound s d (pre ++ [a]) f.dst post' c σ') ∨
      ((nw.receive σ f io).unix = [.toServer [116, 116]] ∧ f.dst = d ∧ post = [] ∧
        ∃ text c, io.answer = some text ∧
          c.pack = f.pack.timeReply (recvInto (σ.node f.dst).serverTimeReply text 32) ∧
          nw.Homebound s d (pre ++ [a]) f.dst [] c σ') := by
  obtain ⟨rfl, hwire⟩ := wire_of_single hs hf h.wire
  have hwf' := hwf.step hs
  have hp := h.pack
  have hj := h.joins
  have hl : pre ++ a :: f.dst :: post = (pre ++ [a]) ++ f.dst :: post := by simp
  rw [hl] at hj
  have hnodup := List.nodup_middle.mp hj.nodup
  have hnew : ∀ y, y ∈ pre ++ [a] ∨ y ∈ post → y ≠ f.dst := by
    rintro y hy rfl
    exact (List.nodup_cons.mp hnodup).1 (List.mem_append.mpr hy)
  have hsource : f.dst ≠ s := (hnew s (Or.inl (hj.mem_source (by simp)))).symm
  have hdone : (pre ++ [a] ++ [f.dst]).IsChain (nw.BothWays s d σ') := by
    rw [List.append_assoc]
    refine List.isChain_split.mpr ⟨?_, List.isChain_pair.mpr
      (hp.bothWays_of_forth hsd hf hs hc h.sender (List.isChain_cons_cons.mp h.ahead).1)⟩
    exact h.done.imp_of_mem_imp fun x y _ hy =>
      hp.bothWays_of_ne hsd hf hs (hnew y (Or.inl hy))
  have hahead : (f.dst :: post).IsChain (nw.Forth s d σ') :=
    (List.isChain_cons_cons.mp h.ahead).2.imp_of_mem_tail_imp fun x y _ hy =>
      hp.forth_of_ne hsd hf hs (hnew y (Or.inr hy))
  have hC := carries_of_data hp.type hp.within hp.src hp.dest (Or.inl hp.srcDest) hclient
    (hio hp.type)
  have hrtbl := rtbl_deliver hf hs hp.within
  generalize hfr : (nw.receive σ f io).sent = fr, (nw.receive σ f io).unix = ux at hC
  rw [hfr] at hwire
  cases hC with
  | hand hd => exact absurd hd hsource
  | back hns hnd hdir => exact absurd (hp.srcDest.symm.trans hdir) (by decide)
  | forth hns hnd hdir =>
    refine Or.inl ⟨rfl, ?_⟩
    rw [hrtbl] at hwire
    cases post with
    | nil =>
      rcases hj.last_cases with ⟨-, h'⟩ | h'
      · exact absurd h' hnd
      · simp at h'
    | cons m post =>
      obtain ⟨c, hone, hpack, rfl, hown⟩ := single_of_nextHop (hifs f.dst) hwf'
        (List.isChain_cons_cons.mp hahead).1.1 f.pack f.cause
      exact ⟨c, _, post, rfl, {
        wire := hwire.trans hone
        pack := hpack.symm ▸ hp
        joins := hj
        done := hdone
        ahead := hahead
        sender := hown }⟩
  | turn hd text hans =>
    rw [hrtbl] at hwire
    have hpost : post = [] := by
      rcases hj.last_cases with ⟨h', -⟩ | h'
      · exact h'
      · exact absurd hd.symm (hnew d (Or.inr h'))
    subst hpost
    have hback : ∃ m, nw.NextHop σ' (nw.key s) f.dst m := by
      rw [List.append_assoc] at hdone
      rcases (List.isChain_pair.mp (List.isChain_split.mp hdone).2).2 with h' | h'
      · exact ⟨a, h'⟩
      · exact ⟨s, h'⟩
    obtain ⟨m, hm⟩ := hback
    obtain ⟨c, hone, hpack, rfl, hown⟩ := single_of_nextHop (hifs f.dst) hwf' hm
      (f.pack.timeReply (recvInto (σ.node f.dst).serverTimeReply text 32)) f.cause
    exact Or.inr ⟨rfl, hd, rfl, text, c, hans, hpack, {
      wire := hwire.trans hone
      pack := hpack.symm ▸ { hp with srcDest := rfl }
      joins := hj
      chain := hdone
      left := by simp
      sender := hown
      next := hm }⟩

/-- **The reply goes one hop back**, or it has come to `s`, which hands it to the client and is
ready for the next request. -/
theorem Homebound.deliver (h : nw.Homebound s d pre a post t σ) :
    ((nw.receive σ f io).unix = [] ∧ ∃ c pre', pre = pre' ++ [f.dst] ∧ c.pack = f.pack ∧
        nw.Homebound s d pre' f.dst (a :: post) c σ') ∨
      ((nw.receive σ f io).unix =
          [.toClient (some client) ⟨f.pack.payload.take 32, nw.addr d, 57575⟩] ∧
        f.dst = s ∧ σ'.wire = [] ∧ ∃ l, nw.Ready s d l σ') := by
  obtain ⟨rfl, hwire⟩ := wire_of_single hs hf h.wire
  have hwf' := hwf.step hs
  have hp := h.pack
  have hC := carries_of_data hp.type hp.within hp.src hp.dest (Or.inr hp.srcDest) hclient
    (hio hp.type)
  have hrtbl := rtbl_deliver hf hs hp.within
  obtain ⟨pre', y, rfl⟩ : ∃ pre' y, pre = pre' ++ [y] :=
    ⟨_, _, (List.dropLast_append_getLast h.left).symm⟩
  have hj := h.joins
  have hchain := h.chain
  rw [List.append_assoc, List.singleton_append] at hj hchain
  have hya : nw.BothWays s d σ y a := (List.isChain_append_cons_cons.mp hchain).2.1
  have hsource : s ∉ a :: post := by
    intro hmem
    have hnd := List.nodup_append.mp h.joins.nodup
    exact hnd.2.2 s (h.joins.mem_source h.left) s hmem rfl
  have hyd : y ≠ d := by
    rintro rfl
    rcases hj.last_cases with ⟨h', -⟩ | h'
    · simp at h'
    · exact (List.nodup_cons.mp (List.nodup_append.mp hj.nodup).2.1).1 h'
  have hdst : f.dst = y ∨ f.dst = s := hya.2.imp h.next.unique h.next.unique
  have hnd : f.dst ≠ d := by
    rcases hdst with h' | h'
    · rwa [h']
    · rwa [h']
  generalize hfr : (nw.receive σ f io).sent = fr, (nw.receive σ f io).unix = ux at hC
  rw [hfr] at hwire
  cases hC with
  | turn hd => exact absurd hd hnd
  | forth hns hnd' hdir => exact absurd (hp.srcDest.symm.trans hdir) (by decide)
  | hand hd =>
    refine Or.inr ⟨rfl, hd, by rw [hwire]; rfl, ?_⟩
    obtain ⟨z, rest, hl⟩ : ∃ z rest, pre' ++ y :: a :: post = s :: z :: rest := by
      obtain ⟨ys, hys⟩ := List.head?_eq_some_iff.mp hj.head
      cases ys with
      | nil =>
        have hlen := congrArg List.length hys
        simp only [List.length_append, List.length_cons, List.length_nil] at hlen
        omega
      | cons z rest => exact ⟨z, rest, hys⟩
    have hsz : nw.BothWays s d σ s z := by
      rw [hl] at hchain
      exact (List.isChain_cons_cons.mp hchain).1
    rcases hp.nextHop_back hf hs hc h.sender (hd.symm ▸ hsz.1) with h' | h'
    -- the way is what it was
    · refine ⟨_, hj, hchain.imp fun x w hxw => (hp.bothWays_back hsd hf hs ?_ hxw).forth⟩
      rintro rfl
      rw [hd] at hxw h' ⊢
      exact hsz.1.unique hxw.1 ▸ h'
    -- the way is cut short
    · refine ⟨s :: a :: post, ⟨?_, rfl, ?_⟩, ?_⟩
      · exact List.nodup_cons.mpr ⟨hsource, (List.nodup_append.mp h.joins.nodup).2.1⟩
      · rw [List.getLast?_cons_cons, ← h.joins.last,
          List.getLast?_append_of_ne_nil _ (List.cons_ne_nil a post)]
      · rw [hd] at h'
        refine List.isChain_cons_cons.mpr ⟨BothWays.forth ⟨h', Or.inl ?_⟩, ?_⟩
        · rw [hp.nextHop_source hsd hf hs, ← hd]
          exact hd.symm ▸ h.next
        · refine (List.isChain_split.mp h.chain).2.imp_of_mem_imp fun x w hx _ hxw =>
            (hp.bothWays_back hsd hf hs ?_ hxw).forth
          rintro rfl
          exact absurd hx (hd.symm ▸ hsource)
  | back hns hnd' hdir =>
    obtain rfl : f.dst = y := hdst.resolve_right hns
    refine Or.inl ⟨rfl, ?_⟩
    rw [hrtbl] at hwire
    obtain ⟨pre'', w, rfl⟩ : ∃ pre'' w, pre' = pre'' ++ [w] := by
      refine ⟨_, _, (List.dropLast_append_getLast (l := pre') ?_).symm⟩
      rintro rfl
      exact hns (by simpa using hj.head)
    have hw : nw.BothWays s d σ w f.dst := by
      rw [List.append_assoc, List.singleton_append] at hchain
      exact (List.isChain_append_cons_cons.mp hchain).2.1
    obtain ⟨m, hm⟩ : ∃ m, nw.NextHop σ' (nw.key s) f.dst m := by
      rcases hw.2 with h' | h'
      · exact ⟨_, (hp.nextHop_source hsd hf hs).mpr h'⟩
      · exact ⟨_, (hp.nextHop_source hsd hf hs).mpr h'⟩
    obtain ⟨c, hone, hpack, rfl, hown⟩ := single_of_nextHop (hifs f.dst) hwf' hm f.pack f.cause
    refine ⟨c, _, rfl, hpack, {
      wire := hwire.trans hone
      pack := hpack.symm ▸ hp
      joins := hj
      chain := hchain.imp fun x w' hxw => hp.bothWays_back hsd hf hs ?_ hxw
      left := by simp
      sender := hown
      next := hm }⟩
    rintro rfl
    -- the route of the receiver to `d` leads to the sender of the reply
    obtain rfl := hya.1.unique hxw.1
    rcases hp.nextHop_back hf hs hc h.sender hya.1 with h' | h'
    · exact h'
    · exact h'

end Step

/-! ## The request -/

section Request

variable {l : List (Fin k)} {req : OdrReq} (hs : nw.Steps σ (.request s client req) σ')
include hs

/-- A request changes no table. -/
lemma rtbl_request (n : Fin k) : (σ'.node n).rtbl = (σ.node n).rtbl := by
  by_cases hn : n = s
  · rw [hn, hs.node_request]
    rfl
  · rw [hs.node_request_ne hn]

/-- **A node that is ready sends the request at once.** -/
theorem Ready.request (h : nw.Ready s d l σ) (hsd : s ≠ d) (hifs : ∀ n, (nw.ifs n).Nodup)
    (hwf : nw.Wf σ) (hempty : σ.wire = []) (hfresh : (σ.node s).sourcePacket.Fresh)
    (hdest : requestDest nw.rs (σ.node s) req = (nw.addr d).str)
    (hforced : req.forcedDiscovery = 0) :
    ∃ c post, nw.Outbound s d [] s post c σ' := by
  have hnext : ∀ {key n m}, nw.NextHop σ key n m → nw.NextHop σ' key n m := by
    intro key n m hn
    rwa [NextHop, rtbl_request hs]
  obtain ⟨z, post, rfl⟩ : ∃ z post, l = s :: z :: post := by
    obtain ⟨ys, rfl⟩ := List.head?_eq_some_iff.mp h.joins.head
    cases ys with
    | nil => exact absurd (by simpa using h.joins.last) hsd
    | cons z post => exact ⟨z, post, rfl⟩
  have hsz := (List.isChain_cons_cons.mp h.chain).1.1
  have hskip : skipDiscovery nw.rs (σ.node s) req = true := by
    obtain ⟨e, he, -⟩ := hsz
    rw [skipDiscovery, hdest, decide_eq_true_eq]
    exact ⟨entryExistsForSrc_ne_zero.mpr ⟨e, he⟩, hforced⟩
  obtain ⟨c, hone, hpack, rfl, hown⟩ := single_of_nextHop (hifs s) hwf hsz
    (dataPack nw.rs (nw.host s) (σ.node s) req) (s, client)
  refine ⟨c, post, {
    wire := ?_
    pack := ?_
    joins := h.joins
    done := .singleton s
    ahead := h.chain.imp fun x w hxw => ⟨hnext hxw.1, ?_⟩
    sender := hown }⟩
  · have hsent : (nw.request σ s client req).sent = payloadFrames (nw.ifs s) (σ.node s).rtbl
        (dataPack nw.rs (nw.host s) (σ.node s) req) (nw.key d) := by
      rw [Network.request, mainRequest_sent, if_pos hskip, hdest]
      rfl
    cases hs with
    | request _ _ _ => rw [hempty, hsent, hone]; rfl
  · rw [hpack]
    exact ⟨rfl, rfl, by rw [dataPack, hdest, cut_str], rfl, hfresh.2, hfresh.1⟩
  · rw [rtbl_request hs]
    exact hxw.2

end Request

end Network

end Odr
