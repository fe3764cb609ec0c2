/-
# Control traffic dies out

Handling an RREQ causes RREQs with a larger `rreq.hop` and RREPs, handling an RREP causes RREPs
with a larger `rrep.hop`, everything else that is caused is DATA, and a packet beyond `MAXH`
causes nothing (`Spawns`).  So the RREQs and RREPs in flight, ranked by their type and the hops
that remain, form a pool of tokens that is exhausted: without new requests, RREQs and RREPs are
delivered finitely often, whatever the tables and the records of the nodes contain.
-/
import Odr.Lib.Exhaustion
import Odr.Network.Invariants

namespace Odr

open Exhaustion

/-- What a packet that is read can cause. -/
inductive Spawns (p q : OdrPack) : Prop
  | rreq (hp : p.type = .rreq) (hq : q.type = .rreq) (hop : p.rreq.hop < q.rreq.hop)
  | answer (hp : p.type = .rreq) (hq : q.type = .rrep)
  | rrep (hp : p.type = .rrep) (hq : q.type = .rrep) (hop : p.rrep.hop < q.rrep.hop)
  | data (hq : q.type = .data)

section

variable {rs : Resolver} {h : Host} {io : UnixIo} {now : ℤ} {s s' : Node} {p q : OdrPack}
  {srcHw : HwAddr} {recvIf : ℤ} {fr : List Frame} {ux : List UnixSend}

lemma Leaves.spawns (hl : Leaves rs h now s p srcHw recvIf q) : p.WithinMaxh ∧ Spawns p q := by
  cases hl with
  | destReply hop hty => exact ⟨hop, .answer hty rfl⟩
  | reflood hop hty => exact ⟨hop, .rreq hty hty (lt_add_one _)⟩
  | tableReply hop hty => exact ⟨hop, .answer hty rfl⟩
  | answered hop hty => exact ⟨hop, .rreq hty rfl (by simp [OdrPack.answered])⟩
  | relayReply hop hty => exact ⟨hop, .rrep hty hty (lt_add_one _)⟩
  | request hop hty => exact ⟨hop, .data rfl⟩
  | timeReply hop hty => exact ⟨hop, .data hty⟩
  | same hop hty => exact ⟨hop, .data hty⟩

end

/-- The rank of an RREQ or an RREP: an RREQ ranks above every RREP, and a packet above those of
its type that have crossed more links. -/
def controlRank (p : OdrPack) : Option (ℕ ×ₗ ℕ) :=
  match p.type with
  | .rreq => some (toLex (1, (maxh + 1 - p.rreq.hop).toNat))
  | .rrep => some (toLex (0, (maxh + 1 - p.rrep.hop).toNat))
  | _ => none

/-- What an RREQ or an RREP within `MAXH` causes ranks lower. -/
lemma Spawns.lt {p q : OdrPack} {x y : ℕ ×ₗ ℕ} (hs : Spawns p q) (hop : p.WithinMaxh)
    (hx : controlRank p = some x) (hy : controlRank q = some y) : y < x := by
  obtain ⟨h₁, h₂⟩ := hop
  cases hs with
  | rreq hp hq hlt =>
    simp only [controlRank, hp, hq, Option.some.injEq] at hx hy
    subst hx hy
    exact Prod.Lex.toLex_lt_toLex.mpr (Or.inr ⟨rfl, by simp only; omega⟩)
  | answer hp hq =>
    simp only [controlRank, hp, hq, Option.some.injEq] at hx hy
    subst hx hy
    exact Prod.Lex.toLex_lt_toLex.mpr (Or.inl (by simp))
  | rrep hp hq hlt =>
    simp only [controlRank, hp, hq, Option.some.injEq] at hx hy
    subst hx hy
    exact Prod.Lex.toLex_lt_toLex.mpr (Or.inr ⟨rfl, by simp only; omega⟩)
  | data hq => simp [controlRank, hq] at hy

/-- A packet without a rank causes none with one. -/
lemma Spawns.controlRank_eq_none {p q : OdrPack} (hs : Spawns p q) (hp : controlRank p = none) :
    controlRank q = none := by
  cases hs with
  | rreq hp' => simp [controlRank, hp'] at hp
  | answer hp' => simp [controlRank, hp'] at hp
  | rrep hp' => simp [controlRank, hp'] at hp
  | data hq => simp [controlRank, hq]

namespace Network

variable {k : ℕ} {nw : Network k}

/-- The ranks of the packets in flight. -/
def controlWeight (σ : Net k) : Multiset (ℕ ×ₗ ℕ) :=
  weight (fun t : Transit k => controlRank t.pack) σ.wire

/-- The step delivers an RREQ or an RREP. -/
def HandlesControl (σ : Net k) (l : Label k) : Prop :=
  ∃ i io f, l = .deliver i io ∧ σ.wire[i]? = some f ∧
    (f.pack.type = .rreq ∨ f.pack.type = .rrep)

lemma spawns_of_mem_transmit {σ : Net k} {f t : Transit k} {io : UnixIo}
    (ht : t ∈ nw.transmit f.cause (nw.receive σ f io).sent) :
    f.pack.WithinMaxh ∧ Spawns f.pack t.pack := by
  obtain ⟨g, hg, hpack⟩ := exists_frame_of_mem_transmit ht
  rw [hpack]
  exact ((nw.receive_handled σ f io).leaves hg).spawns

/-- Without a request, the weight of the packets in flight stays or descends. -/
lemma controlWeight_step {σ σ' : Net k} {l : Label k} (hs : nw.Steps σ l σ')
    (hreq : ∀ n client req, l ≠ .request n client req) :
    (¬HandlesControl σ l ∧ controlWeight σ' = controlWeight σ) ∨
      Relation.CutExpand (· < ·) (controlWeight σ') (controlWeight σ) := by
  cases hs with
  | request n client req => exact absurd rfl (hreq n client req)
  | deliver i io f hf =>
    rcases hrank : controlRank f.pack with _ | x
    · refine Or.inl ⟨?_, weight_replace_unranked hf hrank fun t ht =>
        (spawns_of_mem_transmit ht).2.controlRank_eq_none hrank⟩
      rintro ⟨i', io', f', hl, hf', hty⟩
      cases hl
      obtain rfl := Option.some_injective _ (hf.symm.trans hf')
      rcases hty with hty | hty
      · simp [controlRank, hty] at hrank
      · simp [controlRank, hty] at hrank
    · refine Or.inr (cutExpand_replace hf hrank fun t ht y hy => ?_)
      obtain ⟨hop, hspawn⟩ := spawns_of_mem_transmit ht
      exact hspawn.lt hop hrank hy
  | lose i f hf =>
    -- a loss replaces a copy by nothing
    have hnil : σ.wire.eraseIdx i = σ.wire.eraseIdx i ++ [] := (List.append_nil _).symm
    rcases hrank : controlRank f.pack with _ | x
    · refine Or.inl ⟨by simp [HandlesControl], ?_⟩
      rw [controlWeight, hnil]
      exact weight_replace_unranked hf hrank (by simp)
    · rw [controlWeight, hnil]
      exact Or.inr (cutExpand_replace hf hrank (by simp))
  | tick d => exact Or.inl ⟨by simp [HandlesControl], rfl⟩

/-- **Control traffic dies out.** Handling any packet in any state of a node sends only RREQs
with more hops for an RREQ, RREPs for an RREQ, RREPs with more hops for an RREP, and DATA; a
packet beyond `MAXH` does nothing.  Hence, from any state of the network, RREQs and RREPs are
delivered only finitely often in every infinite sequence of steps without a client's request. -/
theorem control_dies_out (nw : Network k) :
    (∀ rs h res io now s p srcHw recvIf,
      (∀ g ∈ (processPack rs h res io now s p srcHw recvIf).sent, Spawns p g.pack) ∧
      (¬p.WithinMaxh → (processPack rs h res io now s p srcHw recvIf).sent = [] ∧
        (processPack rs h res io now s p srcHw recvIf).node = s)) ∧
    ∀ (σ : ℕ → Net k) (l : ℕ → Label k),
      (∀ i, nw.system.step (σ i) (l i) = some (σ (i + 1))) →
      (∀ i n client req, l i ≠ .request n client req) →
      ∃ N, ∀ i, N ≤ i → ¬HandlesControl (σ i) (l i) := by
  refine ⟨fun rs h res io now s p srcHw recvIf => ⟨fun g hg => ?_, fun hop => ?_⟩,
    fun σ l hstep hreq => ?_⟩
  · exact (processPack_handled.leaves hg).spawns.2
  · rw [processPack, if_pos (OdrPack.over_of_not hop)]
    exact ⟨rfl, rfl⟩
  · have hcases := fun i => controlWeight_step (steps_of_step (hstep i)) (hreq i)
    obtain ⟨N, hN⟩ := eventually_not_descend (f := fun i => controlWeight (σ i))
      (wellFounded_lt.cutExpand) fun i => (hcases i).imp_left fun h => h.2
    exact ⟨N, fun i hi => ((hcases i).resolve_right (hN i hi)).1⟩

end Network

end Odr
