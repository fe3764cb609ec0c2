/-
# All traffic dies out

Once no client asks any more, the network falls silent: in every infinite run with finitely many
requests all of whose deliveries are feasible, only time passes from some step on.

RREQs and RREPs die out by themselves, whatever the tables hold.  From then on no table gets a new
entry and no hop count grows, and a DATA packet, wherever it is, goes to a node that is nearer to
where the packet is bound.  How near a node is changes under way, but it never gets farther
(`away_le_of_steps`), so that the DATA packets in flight are tokens of falling rank.
-/
import Odr.Network.ExchangeEnd
import Odr.Network.LoopFreedom
import Odr.Network.Provenance

namespace Odr

open DistanceVector Exhaustion Lab

/-- Only a packet of a known type makes a node send. -/
lemma Leaves.type {rs : Resolver} {h : Host} {now : ℤ} {s : Node} {p q : OdrPack}
    {srcHw : HwAddr} {recvIf : ℤ} (hl : Leaves rs h now s p srcHw recvIf q) :
    p.type = .rreq ∨ p.type = .rrep ∨ p.type = .data := by
  cases hl with
  | destReply hop hty => exact Or.inl hty
  | reflood hop hty => exact Or.inl hty
  | tableReply hop hty => exact Or.inl hty
  | answered hop hty => exact Or.inl hty
  | relayReply hop hty => exact Or.inr (Or.inl hty)
  | request hop hty => exact Or.inr (Or.inl hty)
  | timeReply hop hty => exact Or.inr (Or.inr hty)
  | same hop hty => exact Or.inr (Or.inr hty)

namespace Network

variable {k : ℕ} {nw : Network k} {σ σ' : Net k} {l : Label k} {f t : Transit k} {b : ℤ}

/-! ## A bound below all hop counts -/

/-- No hop count that an update can meet or take is less than `b`. -/
structure HopsFrom (b : ℤ) (σ : Net k) : Prop where
  route : ∀ n key e, findKey key (σ.node n).rtbl = some e → b ≤ e.hop
  rreq : ∀ f ∈ σ.wire, b ≤ f.pack.rreq.hop
  rrep : ∀ f ∈ σ.wire, f.pack.type = .rrep → b ≤ f.pack.rrep.hop

lemma exists_forall_le (l : List ℤ) : ∃ b, ∀ x ∈ l, b ≤ x := by
  obtain ⟨b, hb⟩ := (List.finite_toSet l).bddBelow
  exact ⟨b, fun x hx => hb hx⟩

lemma exists_hopsFrom (σ : Net k) : ∃ b ≤ 1, HopsFrom b σ := by
  obtain ⟨b₁, h₁⟩ := exists_forall_le
    ((List.finRange k).flatMap fun n => (σ.node n).rtbl.map RtblEntry.hop)
  obtain ⟨b₂, h₂⟩ := exists_forall_le (σ.wire.map fun f => f.pack.rreq.hop)
  obtain ⟨b₃, h₃⟩ := exists_forall_le (σ.wire.map fun f => f.pack.rrep.hop)
  refine ⟨min (min b₁ b₂) (min b₃ 1), by omega, fun n key e he => ?_, fun f hf => ?_,
    fun f hf _ => ?_⟩
  · have h := h₁ e.hop (List.mem_flatMap.mpr ⟨n, List.mem_finRange n,
      List.mem_map_of_mem (mem_of_findKey he)⟩)
    omega
  · have h := h₂ _ (List.mem_map.mpr ⟨f, hf, rfl⟩)
    omega
  · have h := h₃ _ (List.mem_map.mpr ⟨f, hf, rfl⟩)
    omega

/-- What an update offers is taken from the packet. -/
lemma le_of_offer {rs : Resolver} {now : ℤ} {p : OdrPack} {hw : HwAddr} {ifIdx : ℤ} {o : Offer}
    (ho : offer rs now p hw ifIdx = some o) (hreq : b ≤ p.rreq.hop)
    (hrep : p.type = .rrep → b ≤ p.rrep.hop) : b ≤ o.hop ∧ b ≤ o.staleHop := by
  rw [offer] at ho
  rcases hp : p.type with _ | _ | _ | n
  · simp only [hp, Option.some.injEq] at ho
    subst ho
    exact ⟨hreq, hreq⟩
  · simp only [hp, Option.some.injEq] at ho
    subst ho
    exact ⟨hrep hp, hreq⟩
  · simp only [hp] at ho
    split at ho
    · obtain rfl := Option.some_injective _ ho
      exact ⟨hreq, hreq⟩
    · split at ho
      · obtain rfl := Option.some_injective _ ho
        exact ⟨hreq, hreq⟩
      · simp at ho
  · simp [hp] at ho

lemma HopsFrom.learned (h : HopsFrom b σ) (hf : f ∈ σ.wire) {key : ℤ} {e' : RtblEntry}
    (he' : findKey key (nw.learned σ f).rtbl = some e') : b ≤ e'.hop := by
  rcases findKey_updateRtblEntry_cases _ he' with
    ⟨e, ip, he, rfl⟩ | ⟨o, ho, rfl, -, -, -, -, had⟩
  · exact h.route f.dst key e he
  obtain ⟨h₁, h₂⟩ := le_of_offer ho (h.rreq f hf) (h.rrep f hf)
  generalize hfind : findKey o.key (σ.node f.dst).rtbl = oe at had
  generalize e'.hop = x at had ⊢
  cases had with
  | new => exact h₁
  | better e hfresh hlt => exact h₁
  | stale e hstale => exact le_min (h.route f.dst _ e hfind) h₂

/-- The hop counts of a packet that leaves are those of the packet read, or more, or come from the
table. -/
lemma le_of_leaves {rs : Resolver} {h : Host} {now : ℤ} {s : Node} {p q : OdrPack}
    {srcHw : HwAddr} {recvIf : ℤ} (hl : Leaves rs h now s p srcHw recvIf q) (hb : b ≤ 1)
    (hreq : b ≤ p.rreq.hop) (hrep : p.type = .rrep → b ≤ p.rrep.hop)
    (ht : ∀ key e, findKey key (s.learn rs h now p srcHw recvIf).rtbl = some e → b ≤ e.hop) :
    b ≤ q.rreq.hop ∧ (q.type = .rrep → b ≤ q.rrep.hop) := by
  cases hl with
  | destReply => exact ⟨hreq, fun _ => hb⟩
  | reflood hop hty =>
    refine ⟨by simp only [OdrPack.reflood]; omega, fun h' => ?_⟩
    simp [OdrPack.reflood, hty] at h'
  | tableReply hop hty e he =>
    have h1 := ht _ e he
    exact ⟨by simp only [OdrPack.tableReply]; omega,
      fun _ => by simp only [OdrPack.tableReply]; omega⟩
  | answered hop hty e =>
    refine ⟨by simp only [OdrPack.answered]; omega, fun h' => ?_⟩
    simp [OdrPack.answered] at h'
  | relayReply hop hty =>
    have h1 := hrep hty
    exact ⟨hreq, fun _ => by simp only [OdrPack.relayReply]; omega⟩
  | request => exact ⟨hreq, fun h' => by simp [OdrPack.request] at h'⟩
  | timeReply hop hty => exact ⟨hreq, fun h' => by simp [OdrPack.timeReply, hty] at h'⟩
  | same hop hty => exact ⟨hreq, hrep⟩

/-- Without a request no hop count gets below the bound. -/
lemma HopsFrom.step (hb : b ≤ 1) (h : HopsFrom b σ) (hs : nw.Steps σ l σ')
    (hreq : ∀ n client req, l ≠ .request n client req) : HopsFrom b σ' := by
  have hsent : ∀ t ∈ σ'.wire,
      b ≤ t.pack.rreq.hop ∧ (t.pack.type = .rrep → b ≤ t.pack.rrep.hop) := by
    intro t ht
    cases hs.wire ht with
    | old h' => exact ⟨h.rreq t h', h.rrep t h'⟩
    | request n client req hl => exact absurd hl (hreq n client req)
    | deliver i io f hl hf h' =>
      have hmem := mem_wire_of_getElem hf
      obtain ⟨g, hg, hpack⟩ := exists_frame_of_mem_transmit h'
      rw [hpack]
      exact le_of_leaves ((nw.receive_handled σ f io).leaves hg) hb (h.rreq f hmem)
        (h.rrep f hmem) fun key e => h.learned hmem
  refine ⟨fun m key e he => ?_, fun t ht => (hsent t ht).1, fun t ht => (hsent t ht).2⟩
  cases hs.node m with
  | same hl h' => rw [h'] at he; exact h.route m key e he
  | request client req hl => exact absurd hl (hreq m client req)
  | deliver i io f hl hf hm h' =>
    subst hm
    rw [h', rtbl_receive] at he
    split at he
    · exact h.learned (mem_wire_of_getElem hf) he
    · exact h.route f.dst key e he

/-! ## The way that is left -/

/-- How far the node is from the key: nothing if the key is its own, or it has no entry, and
otherwise the hops of its entry from the bound on. -/
def away (nw : Network k) (b : ℤ) (σ : Net k) (key : ℤ) (n : Fin k) : ℕ :=
  if nw.key n = key then 0
  else (findKey key (σ.node n).rtbl).elim 0 fun e => (e.hop - b).toNat + 1

lemma away_of_key {key : ℤ} {n : Fin k} (h : nw.key n = key) : nw.away b σ key n = 0 := if_pos h

lemma away_of_findKey {key : ℤ} {n : Fin k} (h : nw.key n ≠ key) {e : RtblEntry}
    (he : findKey key (σ.node n).rtbl = some e) :
    nw.away b σ key n = (e.hop - b).toNat + 1 := by
  rw [away, if_neg h, he]
  rfl

/-- Without an RREQ or an RREP no table gets a new entry. -/
lemma exists_findKey_of_not_control (hs : nw.Steps σ l σ') (hctl : ¬HandlesControl σ l)
    {key : ℤ} {n : Fin k} {e' : RtblEntry} (he' : findKey key (σ'.node n).rtbl = some e') :
    ∃ e, findKey key (σ.node n).rtbl = some e := by
  cases hs.node n with
  | same hl h => rw [h] at he'; exact ⟨e', he'⟩
  | request client req hl h => rw [h] at he'; exact ⟨e', he'⟩
  | deliver i io f hl hf hn h =>
    subst hn
    rw [h, rtbl_receive] at he'
    split at he'
    · rcases findKey_updateRtblEntry_cases _ he' with
        ⟨e, ip, he, -⟩ | ⟨o, ho, rfl, -, -, -, hnew, -⟩
      · exact ⟨e, he⟩
      · by_contra hnone
        have hnone : findKey o.key (σ.node f.dst).rtbl = none := by
          rw [Option.eq_none_iff_forall_not_mem]
          exact fun e he => hnone ⟨e, he⟩
        rw [offer] at ho
        rcases hty : f.pack.type with _ | _ | _ | m
        · exact hctl ⟨i, io, f, hl, hf, Or.inl hty⟩
        · exact hctl ⟨i, io, f, hl, hf, Or.inr hty⟩
        · exact hnew hnone hty
        · simp [hty] at ho
    · exact ⟨e', he'⟩

/-- Then no node gets farther from a key. -/
lemma away_le_of_steps (hs : nw.Steps σ l σ') (hctl : ¬HandlesControl σ l) (key : ℤ) (n : Fin k) :
    nw.away b σ' key n ≤ nw.away b σ key n := by
  by_cases hkey : nw.key n = key
  · rw [away_of_key hkey]
    exact Nat.zero_le _
  rcases he' : findKey key (σ'.node n).rtbl with _ | e'
  · rw [away, if_neg hkey, he']
    exact Nat.zero_le _
  · obtain ⟨e, he⟩ := exists_findKey_of_not_control hs hctl he'
    obtain ⟨e'', he'', hle⟩ := exists_findKey_of_steps hs he
    obtain rfl := Option.some_injective _ (he'.symm.trans he'')
    rw [away_of_findKey hkey he', away_of_findKey hkey he]
    omega

/-- Where the tables descend, the next node is nearer. -/
lemma away_lt_of_nextHop (hb : nw.Backed σ) (hh : HopsFrom b σ) {key : ℤ} {n m : Fin k}
    (hkey : nw.key n ≠ key) (hn : nw.NextHop σ key n m) :
    nw.away b σ key m < nw.away b σ key n := by
  obtain ⟨e, he, hm⟩ := hn
  rw [away_of_findKey hkey he]
  by_cases hmkey : nw.key m = key
  · rw [away_of_key hmkey]
    exact Nat.succ_pos _
  · rcases hb.descends n key ⟨e.hop, m⟩ hkey (tables_eq_some.mpr ⟨e, he, hm, rfl⟩) with
      h | ⟨r, hr, hlt⟩
    · exact absurd h hmkey
    · obtain ⟨e', he', -, hhop⟩ := tables_eq_some.mp hr
      have hle := hh.route m key e' he'
      rw [away_of_findKey hmkey he']
      simp only at hlt
      omega

/-! ## The rank of what is in flight -/

/-- The rank of a copy: a DATA packet for its destination ranks above one for its source, and one
at a node that is farther away above one that is nearer. -/
def trafficRank (nw : Network k) (b : ℤ) (σ : Net k) (f : Transit k) : ℕ ×ₗ ℕ :=
  if f.pack.type = .data then
    if f.pack.srcDest = 1 then toLex (2, nw.away b σ (nw.idx f.pack.destCanIpStr) f.dst)
    else toLex (1, nw.away b σ (nw.idx f.pack.srcCanIpStr) f.dst)
  else toLex (0, 0)

/-- The ranks of all copies in flight. -/
def trafficWeight (nw : Network k) (b : ℤ) (σ : Net k) : Multiset (ℕ ×ₗ ℕ) :=
  weight (fun f => some (nw.trafficRank b σ f)) σ.wire

/-- Without an RREQ or an RREP no rank grows. -/
lemma trafficRank_le (hs : nw.Steps σ l σ') (hctl : ¬HandlesControl σ l) (f : Transit k) :
    nw.trafficRank b σ' f ≤ nw.trafficRank b σ f := by
  rw [trafficRank, trafficRank]
  split
  · split
    · exact Prod.Lex.toLex_le_toLex.mpr (Or.inr ⟨rfl, away_le_of_steps hs hctl _ _⟩)
    · exact Prod.Lex.toLex_le_toLex.mpr (Or.inr ⟨rfl, away_le_of_steps hs hctl _ _⟩)
  · exact le_rfl

/-- The packet goes from a machine to a machine. -/
def BetweenMachines (nw : Network k) (p : OdrPack) : Prop :=
  ∃ s d, p.srcCanIpStr = nw.addr s ∧ p.destCanIpStr = nw.addr d

/-- What the delivery of a copy other than an RREQ or an RREP sends ranks below it. -/
lemma trafficRank_lt {nw : NamedNetwork k} {i : ℕ} {io : UnixIo}
    (hs : nw.Steps σ (.deliver i io) σ') (hf : σ.wire[i]? = some f)
    (hctl : ¬HandlesControl σ (.deliver i io)) (hwf : nw.Wf σ') (hb : nw.Backed σ')
    (hh : HopsFrom b σ') (hm : nw.BetweenMachines f.pack)
    (ht : t ∈ nw.transmit f.cause (nw.receive σ f io).sent) :
    nw.trafficRank b σ' t < nw.trafficRank b σ f := by
  have hty : f.pack.type = .data := by
    obtain ⟨g, hg, -⟩ := exists_frame_of_mem_transmit ht
    rcases ((nw.receive_handled σ f io).leaves hg).type with h | h | h
    · exact absurd ⟨i, io, f, rfl, hf, Or.inl h⟩ hctl
    · exact absurd ⟨i, io, f, rfl, hf, Or.inr h⟩ hctl
    · exact h
  obtain ⟨s, d, hsrc, hdest⟩ := hm
  have hrt : (nw.receive σ f io).node.rtbl = (σ'.node f.dst).rtbl := by rw [hs.node_dst hf]
  refine lt_of_lt_of_le ?_ (trafficRank_le hs hctl f)
  obtain ⟨⟨hty', hsrc', hdest'⟩, hcase⟩ := relay_cases hwf hty hsrc hdest hrt ht
  rw [trafficRank, trafficRank, if_pos hty, if_pos hty', hsrc, hdest, hsrc', hdest']
  rcases hcase with ⟨hdir, hkey, hn⟩ | ⟨hdir, hdir', hkey, hn⟩
  · have hlt := away_lt_of_nextHop hb hh hkey hn
    rw [if_neg (by omega)]
    split
    · exact Prod.Lex.toLex_lt_toLex.mpr (Or.inl (by simp))
    · exact Prod.Lex.toLex_lt_toLex.mpr (Or.inr ⟨rfl, hlt⟩)
  · have hlt := away_lt_of_nextHop hb hh hkey hn
    rw [if_pos hdir, if_pos hdir']
    exact Prod.Lex.toLex_lt_toLex.mpr (Or.inr ⟨rfl, hlt⟩)

/-- A rank that does not grow falls or stays. -/
lemma falls_trafficRank (hs : nw.Steps σ l σ') (hctl : ¬HandlesControl σ l) (f : Transit k) :
    Falls (· < ·) (fun f => some (nw.trafficRank b σ f)) (fun f => some (nw.trafficRank b σ' f))
      f := by
  rcases (trafficRank_le hs hctl f).eq_or_lt with h | h
  · exact Or.inl (congrArg some h)
  · refine Or.inr ⟨_, rfl, fun y hy => ?_⟩
    obtain rfl := Option.some_injective _ hy
    exact h

/-- Without requests, RREQs and RREPs a step lets time pass, or it lowers the weight of what is in
flight. -/
lemma trafficWeight_step {nw : NamedNetwork k} (hs : nw.Steps σ l σ')
    (hreq : ∀ n client req, l ≠ .request n client req) (hctl : ¬HandlesControl σ l) (hwf : nw.Wf σ')
    (hb : nw.Backed σ') (hh : HopsFrom b σ') (hm : ∀ f ∈ σ.wire, nw.BetweenMachines f.pack) :
    ((∃ x, l = .tick x) ∧ nw.trafficWeight b σ' = nw.trafficWeight b σ) ∨
      Relation.TransGen (Relation.CutExpand (· < ·)) (nw.trafficWeight b σ')
        (nw.trafficWeight b σ) := by
  have hfalls : ∀ f ∈ σ.wire, Falls (· < ·) (fun f => some (nw.trafficRank b σ f))
      (fun f => some (nw.trafficRank b σ' f)) f := fun f _ => falls_trafficRank hs hctl f
  have hstep := hs
  cases hs with
  | request n client req => exact absurd rfl (hreq n client req)
  | tick d => exact Or.inl ⟨⟨d, rfl⟩, rfl⟩
  | deliver i io f hf =>
    refine Or.inr (transGen_replace hf rfl (fun t ht y hy => ?_) hfalls)
    obtain rfl := Option.some_injective _ hy
    exact trafficRank_lt hstep hf hctl hwf hb hh (hm f (mem_wire_of_getElem hf)) ht
  | lose i f hf =>
    refine Or.inr ?_
    rw [trafficWeight, ← List.append_nil (σ.wire.eraseIdx i)]
    exact transGen_replace hf rfl (by simp) hfalls

/-! ## Silence -/

/-- The client asks for a machine of the network. -/
def AsksMachine (nw : Network k) (σ : Net k) : Label k → Prop
  | .request n _ req => ∃ d, CanIp.cut (requestDest nw.rs (σ.node n) req) = nw.addr d
  | _ => True

/-- The steps of a run that settles: its deliveries are feasible, and its clients ask for machines
of the network. -/
def SettlingStep (nw : Network k) (σ : Net k) (l : Label k) : Prop :=
  nw.FeasibleStep σ l ∧ nw.AsksMachine σ l

/-- **All traffic dies out.** Take any network and any infinite run, of which every delivery is
feasible and every request names a machine of the network.  If clients ask finitely often, then
from some step on only time passes.  What is still in flight then is never delivered: nothing makes
a run deliver all that it sends. -/
theorem traffic_dies_out (nw : NamedNetwork k) (σ : ℕ → Net k) (l : ℕ → Label k)
    (h0 : (σ 0).Initial) (hok : ∀ i, nw.SettlingStep (σ i) (l i))
    (hstep : ∀ i, nw.system.step (σ i) (l i) = some (σ (i + 1)))
    (hfin : ∃ M, ∀ i, M ≤ i → ∀ n client req, l i ≠ .request n client req) :
    ∃ N, ∀ i, N ≤ i → ∃ x, l i = .tick x := by
  have hrun := run_history h0 hok hstep
  have hreach : ∀ i, nw.system.Reach nw.FeasibleStep (σ i) :=
    fun i => (hrun i).reach.mono fun _ _ h => h.1
  have hm : ∀ i, ∀ f ∈ (σ i).wire, nw.BetweenMachines f.pack := by
    intro i f hf
    have hG := genuine_of_run (hrun i) f hf
    obtain ⟨τ, req, hmem, hip⟩ := hG.dest
    obtain ⟨j, -, hj⟩ := List.mem_map.mp hmem
    obtain ⟨rfl, hl⟩ := Prod.mk.inj hj
    have hask := (hok j).2
    rw [hl] at hask
    obtain ⟨d, hd⟩ := hask
    exact ⟨f.cause.1, d, hG.src, hip.symm.trans hd⟩
  obtain ⟨M, hM⟩ := hfin
  obtain ⟨b, hb1, hb⟩ := exists_hopsFrom (σ M)
  have hh : ∀ i, M ≤ i → HopsFrom b (σ i) := by
    intro i hi
    induction i, hi using Nat.le_induction with
    | base => exact hb
    | succ i hi ih => exact ih.step hb1 (steps_of_step (hstep i)) (hM i hi)
  -- RREQs and RREPs die out first
  obtain ⟨N₁, h₁⟩ := (control_dies_out nw).2 (fun i => σ (M + i)) (fun i => l (M + i))
    (fun i => hstep (M + i)) fun i => hM (M + i) (by omega)
  have hcases := fun i => trafficWeight_step (steps_of_step (hstep (M + N₁ + i)))
    (hM (M + N₁ + i) (by omega)) (by have h := h₁ (N₁ + i) (by omega); rwa [← Nat.add_assoc] at h)
    (wf_of_reach (hreach _)) (backed_of_reach (hreach _)) (hh _ (by omega)) (hm _)
  obtain ⟨N₂, h₂⟩ := eventually_not_descend (f := fun i => nw.trafficWeight b (σ (M + N₁ + i)))
    (WellFounded.transGen (wellFounded_lt.cutExpand)) fun i => (hcases i).imp_left fun h => h.2
  refine ⟨M + N₁ + N₂, fun i hi => ?_⟩
  obtain ⟨j, rfl⟩ := Nat.exists_eq_add_of_le (show M + N₁ ≤ i by omega)
  exact ((hcases j).resolve_right (h₂ j (by omega))).1

instance (σ : Net k) (l : Label k) : Decidable (nw.AsksMachine σ l) :=
  match l with
  | .request _ _ _ => inferInstanceAs (Decidable (∃ _, _))
  | .deliver _ _ => .isTrue trivial
  | .lose _ => .isTrue trivial
  | .tick _ => .isTrue trivial

instance (σ : Net k) (l : Label k) : Decidable (nw.SettlingStep σ l) :=
  inferInstanceAs (Decidable (_ ∧ _))

/-- The steps of a list, and then nothing but time that stands still. -/
def thenSilence (ls : List (Label k)) (i : ℕ) : Label k := ls.getD i (.tick 0)

lemma step_thenSilence {ls : List (Label k)} (h : (nw.system.exec start ls).isSome) (i : ℕ) :
    nw.system.step (after nw (ls.take i)) (thenSilence ls i) =
      some (after nw (ls.take (i + 1))) := by
  have hpre : ∀ j, nw.system.exec start (ls.take j) = some (after nw (ls.take j)) := by
    intro j
    rw [← List.take_append_drop j ls, Transition.System.exec_append] at h
    exact exec_after (Option.isSome_of_isSome_bind h)
  by_cases hi : i < ls.length
  · have hsucc := hpre (i + 1)
    rw [List.take_succ_eq_append_getElem hi, Transition.System.exec_append, hpre i] at hsucc
    rw [thenSilence, List.getD_eq_getElem _ _ hi, List.take_succ_eq_append_getElem hi]
    simpa [Transition.System.exec] using hsucc
  · rw [thenSilence, List.getD_eq_default _ _ (by omega), List.take_of_length_le (by omega),
      List.take_of_length_le (by omega)]
    simp [system, step]

theorem traffic_dies_out_pair : ∃ N, ∀ i, N ≤ i → ∃ x, thenSilence pairSession i = .tick x := by
  have hlen : pairSession.length = 6 := rfl
  have hsilent : ∀ i, 6 ≤ i → thenSilence pairSession i = .tick 0 :=
    fun i hi => List.getD_eq_default _ _ (by omega)
  refine traffic_dies_out pair (fun i => after pair (pairSession.take i)) (thenSilence pairSession)
    start_initial (fun i => ?_) (step_thenSilence (by decide +kernel)) ⟨6, fun i hi n c req => ?_⟩
  · rcases lt_or_ge i 6 with hi | hi
    · have hall : ∀ i < 6, pair.SettlingStep (after pair (pairSession.take i))
          (thenSilence pairSession i) := by decide +kernel
      exact hall i hi
    · rw [hsilent i hi]
      exact ⟨trivial, trivial⟩
  · rw [hsilent i hi]
    simp

end Network

end Odr
