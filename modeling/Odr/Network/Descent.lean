/-
# Hop descent

The routing tables of all nodes, read as distance-vector tables: `tables` keeps of each entry
its hop count and the node that owns its next hop.

`Backed` is the invariant that makes them descend.  Every route leads to a node that is within
the route's hop count, and every RREQ and RREP in flight carries a hop count that its sender
is within: an RREQ for its source, an RREP for its destination.  A step preserves this when
the copy it delivers is `Feasible`, which only restricts what the tests of `update_rtbl_entry`
do not compare: the replacement of a stale entry and the routes taken from DATA packets.
-/
import Odr.Lib.DistanceVector
import Odr.Network.Invariants

namespace Odr

open DistanceVector

namespace Network

variable {k : ℕ} {nw : Network k}

/-! ## The tables of the network -/

/-- The node that owns an address. -/
def ownerOf (nw : Network k) (hw : HwAddr) : Option (Fin k) :=
  (List.finRange k).find? fun m => nw.Owns m hw

lemma ownerOf_eq_some {hw : HwAddr} {m : Fin k} : nw.ownerOf hw = some m ↔ nw.Owns m hw := by
  constructor
  · intro h
    simpa using List.find?_some h
  · intro h
    rcases ho : nw.ownerOf hw with _ | m'
    · exact absurd h (by simpa using List.find?_eq_none.mp ho m (List.mem_finRange m))
    · have h' : nw.Owns m' hw := by simpa using List.find?_some ho
      rw [h'.unique h]

/-- The hop counts and the next nodes that the routing tables record. -/
def tables (nw : Network k) (σ : Net k) : Tables (Fin k) ℤ := fun n key =>
  (findKey key (σ.node n).rtbl).bind fun e =>
    (nw.ownerOf e.nextHopHwaddr).map fun m => ⟨e.hop, m⟩

lemma tables_eq_some {σ : Net k} {n : Fin k} {key : ℤ} {r : Route (Fin k)} :
    nw.tables σ n key = some r ↔
      ∃ e, findKey key (σ.node n).rtbl = some e ∧ nw.Owns r.next e.nextHopHwaddr ∧
        r.hop = e.hop := by
  rw [tables, Option.bind_eq_some_iff]
  constructor
  · rintro ⟨e, he, hr⟩
    obtain ⟨m, hm, rfl⟩ := Option.map_eq_some_iff.mp hr
    exact ⟨e, he, ownerOf_eq_some.mp hm, rfl⟩
  · rintro ⟨e, he, hm, hhop⟩
    refine ⟨e, he, ?_⟩
    rw [ownerOf_eq_some.mpr hm, ← hhop]
    rfl

lemma Wf.exists_tables {σ : Net k} (hwf : nw.Wf σ) {n : Fin k} {key : ℤ} {e : RtblEntry}
    (he : findKey key (σ.node n).rtbl = some e) :
    ∃ m, nw.Owns m e.nextHopHwaddr ∧ nw.tables σ n key = some ⟨e.hop, m⟩ := by
  obtain ⟨m, hm⟩ := (hwf.route n key e he).exists_owns
  exact ⟨m, hm, tables_eq_some.mpr ⟨e, he, hm, rfl⟩⟩

lemma Wf.within_of_findKey {σ : Net k} (hwf : nw.Wf σ) {n : Fin k} {key x : ℤ} {e : RtblEntry}
    (he : findKey key (σ.node n).rtbl = some e) (hx : e.hop < x) :
    Within nw.key (nw.tables σ) n key x := by
  obtain ⟨m, -, hT⟩ := hwf.exists_tables he
  exact Or.inr ⟨_, hT, hx⟩

/-! ## The promise of a discovery packet -/

/-- What an RREQ and an RREP say about the node that sends them. -/
def Promise (nw : Network k) (T : Tables (Fin k) ℤ) (m : Fin k) (p : OdrPack) : Prop :=
  match p.type with
  | .rreq => Within nw.key T m (nw.idx p.srcCanIpStr) p.rreq.hop
  | .rrep => Within nw.key T m (nw.idx p.destCanIpStr) p.rrep.hop
  | _ => True

lemma Promise.improve {T T' : Tables (Fin k) ℤ} {m : Fin k} {p : OdrPack}
    (h : nw.Promise T m p) (hT : Improves T T') : nw.Promise T' m p := by
  rw [Promise] at h ⊢
  split at h
  · exact Within.improve h hT
  · exact Within.improve h hT
  · trivial

/-- The promise of a discovery packet is about the route that it offers. -/
lemma Promise.within {T : Tables (Fin k) ℤ} {m : Fin k} {p : OdrPack} {now : ℤ} {hw : HwAddr}
    {ifIdx : ℤ} {o : Offer} (h : nw.Promise T m p) (hty : p.type ≠ .data)
    (ho : offer nw.rs now p hw ifIdx = some o) : Within nw.key T m o.key o.hop := by
  rw [Promise] at h
  rw [offer] at ho
  rcases hp : p.type with _ | _ | _ | n
  · simp only [hp, Option.some.injEq] at h ho
    subst ho
    exact h
  · simp only [hp, Option.some.injEq] at h ho
    subst ho
    exact h
  · exact absurd hp hty
  · simp [hp] at ho

/-- The node that sent the copy is within `x` of the key. -/
def SentWithin (nw : Network k) (σ : Net k) (f : Transit k) (key x : ℤ) : Prop :=
  ∃ m, nw.Owns m f.hwSrc ∧ Within nw.key (nw.tables σ) m key x

/-- The copy's sender keeps the promise of the packet. -/
def Promised (nw : Network k) (σ : Net k) (f : Transit k) : Prop :=
  ∃ m, nw.Owns m f.hwSrc ∧ nw.Promise (nw.tables σ) m f.pack

/-- The invariant: the tables descend and every packet in flight keeps its promise. -/
structure Backed (nw : Network k) (σ : Net k) : Prop where
  descends : Descends nw.key (nw.tables σ)
  wire : ∀ f ∈ σ.wire, nw.Promised σ f

/-- The copy may be delivered without harm to descent.  Nothing is asked of an entry that is
not stale and meets an RREQ or an RREP.  A stale entry, and a longer one that meets a DATA
packet, must be replaced by a route to a node that is within the hop count recorded, and the
count recorded for a stale entry must not exceed the one the packet offers. -/
def Feasible (nw : Network k) (σ : Net k) (f : Transit k) : Prop :=
  ∀ o ∈ nw.offerOf σ f, ∀ e ∈ findKey o.key (σ.node f.dst).rtbl, nw.key f.dst ≠ o.key →
    (o.now - e.ts > (nw.host f.dst).sp →
      nw.SentWithin σ f o.key (min e.hop o.staleHop) ∧ min e.hop o.staleHop ≤ o.hop) ∧
    (f.pack.type = .data → o.now - e.ts ≤ (nw.host f.dst).sp → o.hop < e.hop →
      nw.SentWithin σ f o.key o.hop)

/-! ## What one delivery does to the tables -/

section Deliver

variable {σ σ' : Net k} {f : Transit k}

/-- A step keeps every entry and raises no hop count. -/
lemma exists_findKey_of_steps {l : Label k} (hs : nw.Steps σ l σ') {n : Fin k} {key : ℤ}
    {e : RtblEntry} (he : findKey key (σ.node n).rtbl = some e) :
    ∃ e', findKey key (σ'.node n).rtbl = some e' ∧ e'.hop ≤ e.hop := by
  cases hs.node n with
  | same hl h => rw [h]; exact ⟨e, he, le_rfl⟩
  | request client req hl h => rw [h]; exact ⟨e, he, le_rfl⟩
  | deliver i io f hl hf hn h =>
    subst hn
    rw [h, rtbl_receive]
    split
    · exact exists_findKey_updateRtblEntry _ he
    · exact ⟨e, he, le_rfl⟩

/-- Every table keeps its routes, none of which gets longer. -/
lemma improves_of_steps {l : Label k} (hwf : nw.Wf σ) (hs : nw.Steps σ l σ') :
    Improves (nw.tables σ) (nw.tables σ') := by
  intro n key r hr
  obtain ⟨e, he, -, hhop⟩ := tables_eq_some.mp hr
  obtain ⟨e', he', hle⟩ := exists_findKey_of_steps hs he
  obtain ⟨m, -, hT⟩ := (hwf.step hs).exists_tables he'
  exact ⟨_, hT, by rw [hhop]; exact hle⟩

/-- A route that an update has just recorded leads to a node within its hop count. -/
lemma within_of_learned (hb : nw.Promised σ f) (hfe : nw.Feasible σ f) {key : ℤ}
    (hkey : nw.key f.dst ≠ key) {e' : RtblEntry}
    (he' : findKey key (nw.learned σ f).rtbl = some e') {m : Fin k}
    (hm : nw.Owns m e'.nextHopHwaddr) :
    nw.tables σ f.dst key = some ⟨e'.hop, m⟩ ∨ Within nw.key (nw.tables σ) m key e'.hop := by
  rcases findKey_updateRtblEntry_cases _ he' with
    ⟨e, ip, he, rfl⟩ | ⟨o, ho, rfl, hn, -, -, hty, had⟩
  · exact Or.inl (tables_eq_some.mpr ⟨e, he, hm, rfl⟩)
  refine Or.inr ?_
  rw [hn] at hm
  -- the sender named by the promise and by the condition is the owner of the next hop
  have hpromise : f.pack.type ≠ .data → Within nw.key (nw.tables σ) m o.key o.hop := by
    intro hd
    obtain ⟨m', hm', hp⟩ := hb
    obtain rfl := hm.unique hm'
    exact hp.within hd ho
  have hsent : ∀ x, nw.SentWithin σ f o.key x → Within nw.key (nw.tables σ) m o.key x := by
    rintro x ⟨m', hm', hw⟩
    obtain rfl := hm.unique hm'
    exact hw
  generalize hfind : findKey o.key (σ.node f.dst).rtbl = oe at had
  generalize e'.hop = x at had
  cases had with
  | new => exact hpromise (hty hfind)
  | better e hfresh hlt =>
    by_cases hd : f.pack.type = .data
    · exact hsent _ ((hfe o ho e hfind hkey).2 hd hfresh hlt)
    · exact hpromise hd
  | stale e hstale => exact hsent _ ((hfe o ho e hfind hkey).1 hstale).1

/-- After a feasible RREQ or RREP the receiver is itself within one hop more than the packet
offers. -/
lemma within_of_feasible {o : Offer} (hwf' : nw.Wf σ')
    (hr : (σ'.node f.dst).rtbl = (nw.learned σ f).rtbl) (ho : nw.offerOf σ f = some o)
    (hty : f.pack.type ≠ .data) (hfe : nw.Feasible σ f) :
    Within nw.key (nw.tables σ') f.dst o.key (o.hop + 1) := by
  by_cases hkey : nw.key f.dst = o.key
  · exact Or.inl hkey
  obtain ⟨e, he, hle⟩ := exists_findKey_offer (nw.host f.dst).sp
    (t := (σ.node f.dst).rtbl) ho hty
  have hhop := hle fun e₀ he₀ hst => ((hfe o ho e₀ he₀ hkey).1 hst).2
  refine hwf'.within_of_findKey (e := e) ?_ (by omega)
  rw [hr]
  exact he

end Deliver

/-! ## The frames that a node sends keep their promise -/

lemma promise_of_data {T : Tables (Fin k) ℤ} {m : Fin k} {p : OdrPack} (h : p.type = .data) :
    nw.Promise T m p := by
  rw [Promise, h]
  trivial

/-- Every packet that leaves the receiver of a copy is a promise it keeps. -/
lemma promise_of_leaves {nw : NamedNetwork k} {σ σ' : Net k} {f : Transit k} {q : OdrPack}
    (hwf' : nw.Wf σ') (hr : f.pack.WithinMaxh → (σ'.node f.dst).rtbl = (nw.learned σ f).rtbl)
    (hfe : f.pack.WithinMaxh → nw.Feasible σ f)
    (hl : Leaves nw.rs (nw.host f.dst) σ.clock (σ.node f.dst) f.pack f.hwSrc f.ifindex q) :
    nw.Promise (nw.tables σ') f.dst q := by
  cases hl with
  | destReply hop hty hself => exact Or.inl (congrArg nw.idx (isSelfDest_eq_one.mp hself)).symm
  | reflood hop hty =>
    simp only [Promise, OdrPack.reflood, hty]
    have ho : nw.offerOf σ f = some (srcOffer nw.rs σ.clock f.pack f.hwSrc f.ifindex
        f.pack.rreq.hop f.pack.rreq.hop) := by rw [offerOf, offer, hty]
    exact within_of_feasible hwf' (hr hop) ho (by simp [hty]) (hfe hop)
  | tableReply hop hty e he =>
    simp only [Promise, OdrPack.tableReply]
    refine hwf'.within_of_findKey (e := e) ?_ (by omega)
    rw [hr hop]
    exact he
  | answered hop hty e =>
    -- the hop count was raised twice, and the promise leaves room for that
    simp only [Promise, OdrPack.answered]
    have ho : nw.offerOf σ f = some (srcOffer nw.rs σ.clock f.pack f.hwSrc f.ifindex
        f.pack.rreq.hop f.pack.rreq.hop) := by rw [offerOf, offer, hty]
    refine (within_of_feasible hwf' (hr hop) ho (by simp [hty]) (hfe hop)).of_le ?_
    simp only [srcOffer]
    omega
  | relayReply hop hty =>
    simp only [Promise, OdrPack.relayReply, hty]
    have ho : nw.offerOf σ f = some (destOffer nw.rs σ.clock f.pack f.hwSrc f.ifindex
        f.pack.rreq.hop f.pack.rrep.hop) := by rw [offerOf, offer, hty]
    exact within_of_feasible hwf' (hr hop) ho (by simp [hty]) (hfe hop)
  | request => exact promise_of_data rfl
  | timeReply hop hty => exact promise_of_data hty
  | same hop hty => exact promise_of_data hty

/-- The frames of a client's request keep their promise. -/
lemma promise_of_mem_request {σ : Net k} {T : Tables (Fin k) ℤ} {n : Fin k} {client : UnAddr}
    {req : OdrReq} {g : Frame} (hg : g ∈ (nw.request σ n client req).sent) :
    nw.Promise T n g.pack := by
  rcases pack_of_mem_request hg with h | ⟨-, h⟩
  · rw [h]
    exact promise_of_data rfl
  · rw [h]
    exact Or.inl rfl

/-- A copy of a frame that a node sends is promised by that node. -/
lemma promised_of_mem_transmit {σ : Net k} {n : Fin k} {frames : List Frame}
    {cause : Fin k × UnAddr} (hfr : ∀ g ∈ frames, g.From (nw.ifs n))
    (hp : ∀ g ∈ frames, nw.Promise (nw.tables σ) n g.pack) {t : Transit k}
    (ht : t ∈ nw.transmit cause frames) : nw.Promised σ t := by
  obtain ⟨g, hg, j, -, -, -, hsrc, hpack, -⟩ := mem_transmit.mp ht
  obtain ⟨i, hi, hgi, -⟩ := hfr g hg
  refine ⟨n, ⟨i, hi, ?_⟩, ?_⟩
  · rw [hsrc, hgi]
  · rw [hpack]
    exact hp g hg

/-! ## The invariant -/

lemma Promised.improve {σ σ' : Net k} {f : Transit k} (h : nw.Promised σ f)
    (hT : Improves (nw.tables σ) (nw.tables σ')) : nw.Promised σ' f := by
  obtain ⟨m, hm, hp⟩ := h
  exact ⟨m, hm, hp.improve hT⟩

theorem Backed.initial {σ : Net k} (h : σ.Initial) : nw.Backed σ where
  descends n key r _ hr := by
    obtain ⟨e, he, -⟩ := tables_eq_some.mp hr
    rw [(h.node n).rtbl, findKey_nil] at he
    simp at he
  wire f hf := by rw [h.wire] at hf; simp at hf

/-- Every delivery is feasible. -/
def FeasibleStep (nw : Network k) (σ : Net k) : Label k → Prop
  | .deliver i _ => ∀ f ∈ σ.wire[i]?, f.pack.WithinMaxh → nw.Feasible σ f
  | _ => True

instance (σ : Net k) (f : Transit k) (key x : ℤ) : Decidable (nw.SentWithin σ f key x) :=
  inferInstanceAs (Decidable (∃ _, _))

instance (σ : Net k) (f : Transit k) : Decidable (nw.Feasible σ f) :=
  inferInstanceAs (Decidable (∀ o ∈ _, _))

instance (σ : Net k) (l : Label k) : Decidable (nw.FeasibleStep σ l) :=
  match l with
  | .deliver i _ => inferInstanceAs (Decidable (∀ f ∈ σ.wire[i]?, _))
  | .request _ _ _ => .isTrue trivial
  | .lose _ => .isTrue trivial
  | .tick _ => .isTrue trivial

/-- The tables of the nodes that a step does not touch stay; the receiver's new routes are
within their hop counts. -/
lemma tables_of_steps {σ σ' : Net k} {l : Label k} (hb : nw.Backed σ)
    (hfe : nw.FeasibleStep σ l) (hs : nw.Steps σ l σ') {n : Fin k} {key : ℤ}
    {r : Route (Fin k)} (hkey : nw.key n ≠ key) (hr : nw.tables σ' n key = some r) :
    nw.tables σ n key = some r ∨ Within nw.key (nw.tables σ) r.next key r.hop := by
  obtain ⟨e, he, hm, hhop⟩ := tables_eq_some.mp hr
  have hsame : findKey key (σ.node n).rtbl = some e → nw.tables σ n key = some r :=
    fun h => tables_eq_some.mpr ⟨e, h, hm, hhop⟩
  cases hs.node n with
  | same hl h => rw [h] at he; exact Or.inl (hsame he)
  | request client req hl h => rw [h] at he; exact Or.inl (hsame he)
  | deliver i io f hl hf hn h =>
    subst hl hn
    rw [h, rtbl_receive] at he
    split at he
    · next hop =>
      obtain ⟨x, m⟩ := r
      simp only at hm hhop ⊢
      subst hhop
      exact within_of_learned (hb.wire f (mem_wire_of_getElem hf)) (hfe f hf hop) hkey he hm
    · exact Or.inl (hsame he)

/-- **Feasible steps preserve descent.** -/
theorem Backed.step {nw : NamedNetwork k} {σ σ' : Net k} {l : Label k} (hwf : nw.Wf σ)
    (hb : nw.Backed σ) (hfe : nw.FeasibleStep σ l) (hs : nw.Steps σ l σ') :
    nw.Backed σ' := by
  have hwf' := hwf.step hs
  have hT := improves_of_steps hwf hs
  refine ⟨hb.descends.improve hT fun n key r hn hr => tables_of_steps hb hfe hs hn hr,
    fun t ht => ?_⟩
  cases hs.wire ht with
  | old h => exact (hb.wire t h).improve hT
  | request n client req hl h =>
    exact promised_of_mem_transmit (fun g hg => from_of_mem_request hg)
      (fun g hg => promise_of_mem_request hg) h
  | deliver i io f hl hf h =>
    subst hl
    have H := nw.receive_handled σ f io
    refine promised_of_mem_transmit (fun g hg => H.from_of_mem hg) (fun g hg => ?_) h
    refine promise_of_leaves hwf' (fun hop => ?_) (hfe f hf) (H.leaves hg)
    rw [hs.node_dst hf, rtbl_receive, if_pos hop]

/-- Every state of a run of feasible steps is backed. -/
theorem backed_of_reach {nw : NamedNetwork k} {σ : Net k} (h : nw.system.Reach nw.FeasibleStep σ) :
    nw.Backed σ :=
  h.invariant (fun _ => Backed.initial) fun _ _ _ hσ hb hfe hs =>
    hb.step (wf_of_reach hσ) hfe (steps_of_step hs)

end Network

end Odr
