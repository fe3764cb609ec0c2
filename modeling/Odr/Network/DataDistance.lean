/-
# Distances and DATA packets

As long as nothing is stale, RREQs and RREPs never make a node nearer than it is: the hop count
of every entry, and the one that every such packet in flight offers to its receiver, is at least
the distance to the node of the key (`Honest`).

DATA packets offer `rreq.hop` too, a field that no relay advances and that a packet originated
from the table has from an earlier request, where it was `1`.  Distances are safe from them
exactly as long as no DATA packet that improves an entry offers less than the distance
(`data_distance_iff`).
-/
import Odr.Lib.WalkBound
import Odr.Network.Invariants
import Odr.Network.Lab

namespace Odr

open Lab WalkBound
open Transition.System (along_iff_forall)

namespace Network

variable {k : ℕ} {nw : Network k} {tr : List (Net k × Label k)} {σ σ' : Net k} {l : Label k}
  {f : Transit k}

/-- The update that a copy causes finds no stale entry. -/
def FreshUpdate (nw : Network k) (σ : Net k) (f : Transit k) : Prop :=
  ∀ o ∈ nw.offerOf σ f, ∀ e ∈ findKey o.key (σ.node f.dst).rtbl,
    o.now - e.ts ≤ (nw.host f.dst).sp

/-- The copy is a DATA packet that improves an entry and offers fewer hops than the distance. -/
def Understates (nw : Network k) (σ : Net k) (f : Transit k) : Prop :=
  f.pack.type = .data ∧ ∃ o ∈ nw.offerOf σ f, ∃ e ∈ findKey o.key (σ.node f.dst).rtbl,
    o.hop < e.hop ∧ ∃ d, nw.key d = o.key ∧ o.hop < nw.graph.dist f.dst d

/-- The steps in which nothing is stale. -/
def FreshUpdates (nw : Network k) (σ : Net k) : Label k → Prop
  | .deliver i _ => ∀ f ∈ σ.wire[i]?, f.pack.WithinMaxh → nw.FreshUpdate σ f
  | _ => True

/-- The step delivers a DATA packet that understates a distance. -/
def UnderstatesStep (nw : Network k) (σ : Net k) : Label k → Prop
  | .deliver i _ => ∃ f ∈ σ.wire[i]?, f.pack.WithinMaxh ∧ nw.Understates σ f
  | _ => False

/-- The step delivers no DATA packet that improves an entry. -/
def DataIdle (nw : Network k) (σ : Net k) : Label k → Prop
  | .deliver i _ => ∀ f ∈ σ.wire[i]?, f.pack.type = .data → ∀ o ∈ nw.offerOf σ f,
      ∀ e ∈ findKey o.key (σ.node f.dst).rtbl, e.hop ≤ o.hop
  | _ => True

/-- Every entry's hop count is at least the distance to the node of its key. -/
def HopsBound (nw : Network k) (σ : Net k) : Prop :=
  ∀ n d e, findKey (nw.key d) (σ.node n).rtbl = some e →
    nw.graph.Reachable n d ∧ (nw.graph.dist n d : ℤ) ≤ e.hop

/-- The key is that of a node which is at most `x` links away from `n`. -/
def NearKey (nw : Network k) (n : Fin k) (key x : ℤ) : Prop :=
  ∃ d, nw.key d = key ∧ Near nw.graph n d x

/-- The invariant: hop counts bound distances, in the tables and in what RREQs and RREPs offer
to their receivers. -/
structure Honest (nw : Network k) (σ : Net k) : Prop where
  entry : ∀ n key e, findKey key (σ.node n).rtbl = some e → nw.NearKey n key e.hop
  wire : ∀ f ∈ σ.wire, f.pack.type ≠ .data → ∀ now o,
    offer nw.rs now f.pack f.hwSrc f.ifindex = some o → nw.NearKey f.dst o.key o.hop

lemma NearKey.mono {n : Fin k} {key x y : ℤ} (h : nw.NearKey n key x) (hxy : x ≤ y) :
    nw.NearKey n key y := by
  obtain ⟨d, hd, hn⟩ := h
  exact ⟨d, hd, hn.mono hxy⟩

/-- A node that shares a link is one hop further away at most. -/
lemma NearKey.joined {n m : Fin k} {key x : ℤ} (h : nw.NearKey n key x) (hj : nw.Joined n m) :
    nw.NearKey m key (x + 1) := by
  obtain ⟨d, hd, hn⟩ := h
  refine ⟨d, hd, ?_⟩
  rcases eq_or_ne n m with rfl | hne
  · exact hn.mono (by omega)
  · exact hn.cons (hj.adj hne).symm

lemma Honest.initial (h : σ.Initial) : nw.Honest σ where
  entry n key e he := by rw [(h.node n).rtbl, findKey_nil] at he; simp at he
  wire f hf := by rw [h.wire] at hf; simp at hf

lemma Honest.hopsBound {nw : NamedNetwork k} (hh : nw.Honest σ) : nw.HopsBound σ := by
  intro n d e he
  obtain ⟨d', hd, hn⟩ := hh.entry n _ e he
  obtain rfl := key_inj hd
  exact near_iff.mp hn

lemma DataIdle.not_understates (h : nw.DataIdle σ l) : ¬nw.UnderstatesStep σ l := by
  cases l with
  | deliver i io =>
    rintro ⟨f, hf, -, hty, o, ho, e, he, hlt, -⟩
    exact not_lt.mpr (h f hf hty o ho e he) hlt
  | request n client req => exact id
  | lose i => exact id
  | tick d => exact id

/-! ## What one delivery does to the tables -/

/-- After an update that finds nothing stale and understates nothing, hop counts still bound
distances. -/
lemma Honest.learned (hh : nw.Honest σ) (hf : f ∈ σ.wire) (hfresh : nw.FreshUpdate σ f)
    (hdata : ¬nw.Understates σ f) {key : ℤ} {e' : RtblEntry}
    (he' : findKey key (nw.learned σ f).rtbl = some e') : nw.NearKey f.dst key e'.hop := by
  rcases findKey_updateRtblEntry_cases _ he' with
    ⟨e, ip, he, rfl⟩ | ⟨o, ho, rfl, -, -, -, hty, had⟩
  · exact hh.entry f.dst key e he
  have hoffer : f.pack.type ≠ .data → nw.NearKey f.dst o.key o.hop := fun hd =>
    hh.wire f hf hd σ.clock o ho
  generalize hfind : findKey o.key (σ.node f.dst).rtbl = oe at had
  generalize e'.hop = x at had
  cases had with
  | new => exact hoffer (hty hfind)
  | better e _ hlt =>
    by_cases hd : f.pack.type = .data
    · obtain ⟨d, hkey, hn⟩ := hh.entry f.dst o.key e hfind
      refine ⟨d, hkey, near_iff.mpr ⟨(near_iff.mp hn).1, ?_⟩⟩
      by_contra hshort
      exact hdata ⟨hd, o, ho, e, hfind, hlt, d, hkey, not_le.mp hshort⟩
    · exact hoffer hd
  | stale e hstale => exact absurd hstale (not_lt.mpr (hfresh o ho e hfind))

/-! ## What the packets that leave a node offer -/

/-- A packet that the node sends offers one hop more than the node is away, unless it is DATA. -/
def OffersAway (nw : Network k) (n : Fin k) (q : OdrPack) : Prop :=
  q.type ≠ .data → ∀ now hw ifIdx o, offer nw.rs now q hw ifIdx = some o →
    nw.NearKey n o.key (o.hop - 1)

lemma offersAway_of_rreq {n : Fin k} {q : OdrPack} (hty : q.type = .rreq)
    (h : nw.NearKey n (srcKey nw.rs q) (q.rreq.hop - 1)) : nw.OffersAway n q := by
  intro _ now hw ifIdx o ho
  rw [offer, hty] at ho
  obtain rfl := Option.some_injective _ ho
  exact h

lemma offersAway_of_rrep {n : Fin k} {q : OdrPack} (hty : q.type = .rrep)
    (h : nw.NearKey n (destKey nw.rs q) (q.rrep.hop - 1)) : nw.OffersAway n q := by
  intro _ now hw ifIdx o ho
  rw [offer, hty] at ho
  obtain rfl := Option.some_injective _ ho
  exact h

/-- What the receiver of an RREQ is offered. -/
lemma Honest.rreq (hh : nw.Honest σ) (hf : f ∈ σ.wire) (hty : f.pack.type = .rreq) :
    nw.NearKey f.dst (srcKey nw.rs f.pack) f.pack.rreq.hop :=
  hh.wire f hf (by simp [hty]) σ.clock
    (srcOffer nw.rs σ.clock f.pack f.hwSrc f.ifindex f.pack.rreq.hop f.pack.rreq.hop)
    (by rw [offer, hty])

/-- What the receiver of an RREP is offered. -/
lemma Honest.rrep (hh : nw.Honest σ) (hf : f ∈ σ.wire) (hty : f.pack.type = .rrep) :
    nw.NearKey f.dst (destKey nw.rs f.pack) f.pack.rrep.hop :=
  hh.wire f hf (by simp [hty]) σ.clock
    (destOffer nw.rs σ.clock f.pack f.hwSrc f.ifindex f.pack.rreq.hop f.pack.rrep.hop)
    (by rw [offer, hty])

lemma Honest.offersAway {nw : NamedNetwork k} (hh : nw.Honest σ) (hf : f ∈ σ.wire)
    (hlearned : f.pack.WithinMaxh → ∀ key e, findKey key (nw.learned σ f).rtbl = some e →
      nw.NearKey f.dst key e.hop) {q : OdrPack}
    (hl : Leaves nw.rs (nw.host f.dst) σ.clock (σ.node f.dst) f.pack f.hwSrc f.ifindex q) :
    nw.OffersAway f.dst q := by
  cases hl with
  | destReply hop hty hself =>
    refine offersAway_of_rrep rfl ⟨f.dst, ?_, near_self (by simp [OdrPack.destReply])⟩
    exact (congrArg nw.idx (isSelfDest_eq_one.mp hself)).symm
  | reflood hop hty =>
    refine offersAway_of_rreq hty ((hh.rreq hf hty).mono ?_)
    simp [OdrPack.reflood]
  | tableReply hop hty e he =>
    refine offersAway_of_rrep rfl ((hlearned hop _ e he).mono ?_)
    simp [OdrPack.tableReply]
  | answered hop hty e =>
    -- the hop count was raised twice
    refine offersAway_of_rreq rfl ((hh.rreq hf hty).mono ?_)
    simp only [OdrPack.answered]
    omega
  | relayReply hop hty =>
    refine offersAway_of_rrep hty ((hh.rrep hf hty).mono ?_)
    simp [OdrPack.relayReply]
  | request => exact fun hne => absurd rfl hne
  | timeReply hop hty => exact fun hne => absurd hty hne
  | same hop hty => exact fun hne => absurd hty hne

lemma offersAway_of_request {n : Fin k} {client : UnAddr} {req : OdrReq} {g : Frame}
    (hg : g ∈ (nw.request σ n client req).sent) : nw.OffersAway n g.pack := by
  rcases pack_of_mem_request hg with h | ⟨-, h⟩
  · rw [h]
    exact fun hne => absurd rfl hne
  · rw [h]
    exact offersAway_of_rreq rfl ⟨n, rfl, near_self (by simp [rreqPack])⟩

/-- The receiver of such a packet is at most as far away as it is offered. -/
lemma near_of_mem_transmit {n : Fin k} {frames : List Frame} {cause : Fin k × UnAddr}
    (hfr : ∀ g ∈ frames, g.From (nw.ifs n)) (haway : ∀ g ∈ frames, nw.OffersAway n g.pack)
    {t : Transit k} (ht : t ∈ nw.transmit cause frames) (hty : t.pack.type ≠ .data) (now : ℤ)
    {o : Offer} (ho : offer nw.rs now t.pack t.hwSrc t.ifindex = some o) :
    nw.NearKey t.dst o.key o.hop := by
  have hj := joined_of_mem_transmit hfr ht
  obtain ⟨g, hg, hpack⟩ := exists_frame_of_mem_transmit ht
  rw [hpack] at hty ho
  exact ((haway g hg hty now t.hwSrc t.ifindex o ho).joined hj).mono (by omega)

/-! ## The invariant -/

/-- **A step in which nothing is stale and nothing understated keeps hop counts honest.** -/
theorem Honest.step {nw : NamedNetwork k} (hh : nw.Honest σ) (hs : nw.Steps σ l σ')
    (hfresh : nw.FreshUpdates σ l) (hdata : ¬nw.UnderstatesStep σ l) :
    nw.Honest σ' := by
  have hlearned : ∀ i io f, l = .deliver i io → σ.wire[i]? = some f → f.pack.WithinMaxh →
      ∀ key e, findKey key (nw.learned σ f).rtbl = some e → nw.NearKey f.dst key e.hop := by
    rintro i io f rfl hf hop key e he
    exact hh.learned (mem_wire_of_getElem hf) (hfresh f hf hop) (fun h => hdata ⟨f, hf, hop, h⟩) he
  refine ⟨fun m key e he => ?_, fun t ht hty now o ho => ?_⟩
  · cases hs.node m with
    | same hl h => rw [h] at he; exact hh.entry m key e he
    | request client req hl h => rw [h] at he; exact hh.entry m key e he
    | deliver i io f hl hf hm h =>
      subst hm
      rw [h, rtbl_receive] at he
      split at he
      · next hop => exact hlearned i io f hl hf hop key e he
      · exact hh.entry f.dst key e he
  · cases hs.wire ht with
    | old h => exact hh.wire t h hty now o ho
    | request n client req hl h =>
      exact near_of_mem_transmit (fun g hg => from_of_mem_request hg)
        (fun g hg => offersAway_of_request hg) h hty now ho
    | deliver i io f hl hf h =>
      have H := nw.receive_handled σ f io
      exact near_of_mem_transmit (fun g hg => H.from_of_mem hg)
        (fun g hg => hh.offersAway (mem_wire_of_getElem hf) (hlearned i io f hl hf) (H.leaves hg))
        h hty now ho

/-- An update that a DATA packet understates leaves an entry that is below the distance. -/
lemma not_hopsBound_of_understates (hs : nw.Steps σ l σ') (hfresh : nw.FreshUpdates σ l)
    (hdata : nw.UnderstatesStep σ l) : ¬nw.HopsBound σ' := by
  cases hs with
  | deliver i io f hf =>
    obtain ⟨f', hf', hop, hty, o, ho, e, he, hlt, d, hkey, hshort⟩ := hdata
    obtain rfl := Option.some_injective _ (hf.symm.trans hf')
    obtain ⟨ip, he'⟩ := findKey_updateRtblEntry_some (nw.host f.dst).sp ho he
    rw [touch_fresh (hfresh f hf hop o ho e he), improve_of_lt hlt] at he'
    have hnode : (Function.update σ.node f.dst (nw.receive σ f io).node f.dst).rtbl
        = (nw.learned σ f).rtbl := by rw [Function.update_self, rtbl_receive, if_pos hop]
    intro hbound
    exact not_le.mpr hshort (hbound f.dst d _ (by rw [hnode, hkey]; exact he')).2
  | request => exact hdata.elim
  | lose => exact hdata.elim
  | tick => exact hdata.elim

/-- **When hop counts bound distances.** In every run in which nothing is stale, the hop count of
every entry is at all times at least the distance to the node of its key, if and only if no DATA
packet understates a distance when it is delivered. -/
theorem data_distance_iff {nw : NamedNetwork k} (hr : nw.system.Run nw.FreshUpdates tr σ) :
    (∀ x ∈ tr, ∀ σ', nw.system.step x.1 x.2 = some σ' → nw.HopsBound σ') ↔
      ∀ x ∈ tr, ¬nw.UnderstatesStep x.1 x.2 := by
  rw [← along_iff_forall, ← along_iff_forall]
  refine hr.along_iff (I := fun _ σ => nw.Honest σ) (P := fun _ σ => nw.HopsBound σ)
    (C := fun _ x => ¬nw.UnderstatesStep x.1 x.2) (fun σ h => .initial h) ?_ ?_ ?_
  · intro tr σ l σ' _ hh hfresh hs hdata
    exact hh.step (steps_of_step hs) hfresh hdata
  · exact fun _ _ _ hh => hh.hopsBound
  · intro tr σ l σ' _ _ hfresh hs hbound hdata
    exact not_hopsBound_of_understates (steps_of_step hs) hfresh hdata hbound

instance (σ : Net k) (l : Label k) : Decidable (nw.FreshUpdates σ l) :=
  match l with
  | .deliver i _ => inferInstanceAs (Decidable (∀ f ∈ σ.wire[i]?, f.pack.WithinMaxh →
      ∀ o ∈ nw.offerOf σ f, ∀ e ∈ findKey o.key (σ.node f.dst).rtbl,
        o.now - e.ts ≤ (nw.host f.dst).sp))
  | .request _ _ _ => .isTrue trivial
  | .lose _ => .isTrue trivial
  | .tick _ => .isTrue trivial

instance (σ : Net k) (l : Label k) : Decidable (nw.DataIdle σ l) :=
  match l with
  | .deliver i _ => inferInstanceAs (Decidable (∀ f ∈ σ.wire[i]?, f.pack.type = .data →
      ∀ o ∈ nw.offerOf σ f, ∀ e ∈ findKey o.key (σ.node f.dst).rtbl, e.hop ≤ o.hop))
  | .request _ _ _ => .isTrue trivial
  | .lose _ => .isTrue trivial
  | .tick _ => .isTrue trivial

/-- A request on a line for its other end, answered over the whole way. -/
def lineFull : List (Label 3) :=
  asks 0 0 2 :: List.replicate 8 (.deliver 0 (answering []))

theorem data_distance_line :
    line.system.Run line.FreshUpdates (line.system.trace start lineFull) (after line lineFull) ∧
      ∀ x ∈ line.system.trace start lineFull, ∀ σ', line.system.step x.1 x.2 = some σ' →
        line.HopsBound σ' := by
  have hrun : line.system.Run line.FreshUpdates (line.system.trace start lineFull)
      (after line lineFull) := run_after (by decide +kernel) (by decide +kernel)
  have hidle : ∀ x ∈ line.system.trace start lineFull, line.DataIdle x.1 x.2 := by decide +kernel
  exact ⟨hrun, (data_distance_iff hrun).mpr fun x hx => (hidle x hx).not_understates⟩

/-- The node asks again and sends DATA at once, under the header of its first RREQ. -/
def lineCached : List (Label 3) :=
  (asks 0 0 2 :: List.replicate 4 (.deliver 0 (answering []))) ++
    [asks 0 0 2, .deliver 1 (answering []), .deliver 1 (answering [])]

/-- The far end of the line then counts one hop to the node. -/
theorem data_distance_too_small :
    ¬∀ (nw : Network 3) σ, nw.system.Reach nw.FreshUpdates σ → ∀ n d e, n ≠ d →
      findKey (nw.key d) (σ.node n).rtbl = some e → (nw.graph.dist n d : ℤ) ≤ e.hop := by
  intro h
  have he : findKey (line.key 0) ((after line lineCached).node 2).rtbl
      = some ⟨1, ip 0, 3, 4, 1, 0⟩ := by decide +kernel
  have hle := h line _ (reach_after (by decide +kernel) (by decide +kernel)) 2 0 _ (by decide) he
  have h₂₁ : line.graph.Adj 2 1 := by decide +kernel
  have h₁₀ : line.graph.Adj 1 0 := by decide +kernel
  have hdist : 1 < line.graph.dist 2 0 :=
    (h₂₁.reachable.trans h₁₀.reachable).one_lt_dist_of_ne_of_not_adj (by decide)
      (by decide +kernel)
  simp only at hle
  omega

end Network

end Odr
