/-
# The hop counts of RREQs

The nodes that have sent a packet on, from the one whose client asked, are kept beside every copy
in flight (`senders`).  They form a chain of links to the receiver, and the copy of an RREQ
should count them in `rreq.hop`, since the receiver records this number.

A relay that floods an RREQ adds one.  A relay that answers it adds one on the way to the RREP
and one more on the way back to an RREQ, so the copies it broadcasts then claim a link too many.
`rreq_hop_exact_iff` says that nothing else goes wrong.
-/
import Odr.Network.Ghost
import Odr.Network.Lab
import Odr.Network.Relay

namespace Odr

open Lab
open Transition.System (Along along_iff_forall)

namespace Network

variable {k : ℕ} {nw : Network k} {tr : List (Net k × Label k)} {σ σ' : Net k} {l : Label k}

/-- The nodes that have sent a packet, in order. -/
def senders : Ghost k (List (Fin k)) where
  new n _ := [n]
  pass f path := path ++ [f.dst]

/-- The senders start at the packet's source and form a chain of links to the receiver. -/
def Crossed (nw : Network k) (f : Transit k) (path : List (Fin k)) : Prop :=
  (∃ n, path.head? = some n ∧ f.pack.srcCanIpStr = nw.addr n) ∧
    (path ++ [f.dst]).IsChain nw.Joined

/-- The copy of an RREQ counts the links it has crossed when its receiver handles it, and makes
an offer of that many hops. -/
def CountsLinks (nw : Network k) (f : Transit k) (path : List (Fin k)) : Prop :=
  f.pack.type = .rreq → nw.Crossed f path ∧ f.pack.rreq.hop = path.length ∧
    ∀ clock, (offer nw.rs clock f.pack f.hwSrc f.ifindex).map Offer.hop = some (path.length : ℤ)

/-- Every copy in flight after a run counts its links. -/
def Exact (nw : Network k) (tr : List (Net k × Label k)) (σ : Net k) : Prop :=
  List.Forall₂ nw.CountsLinks σ.wire (nw.ghosts senders tr)

/-- The step makes a relay answer an RREQ from its table. -/
def TableAnswer (nw : Network k) (σ : Net k) : Label k → Prop
  | .deliver i _ => ∃ f ∈ σ.wire[i]?, nw.AnswersFromTable σ f
  | _ => False

/-! ## Chains of links -/

lemma crossed_new {n : Fin k} {client : UnAddr} {req : OdrReq} {t : Transit k}
    (ht : t ∈ nw.transmit (n, client) (nw.request σ n client req).sent) : nw.Crossed t [n] := by
  have hj := joined_of_mem_transmit (fun f hf => from_of_mem_request hf) ht
  refine ⟨⟨n, rfl, ?_⟩, by simpa using hj⟩
  obtain ⟨g, hg, hpack⟩ := exists_frame_of_mem_transmit ht
  rcases pack_of_mem_request hg with h | ⟨-, h⟩
  · rw [hpack, h]
    rfl
  · rw [hpack, h]
    rfl

lemma Crossed.pass {f t : Transit k} {path : List (Fin k)} (h : nw.Crossed f path) {io : UnixIo}
    (ht : t ∈ nw.transmit f.cause (nw.receive σ f io).sent) :
    nw.Crossed t (path ++ [f.dst]) := by
  obtain ⟨⟨n, hn, hsrc⟩, hchain⟩ := h
  have hj := joined_of_mem_transmit (fun g hg => (nw.receive_handled σ f io).from_of_mem hg) ht
  obtain ⟨g, hg, hpack⟩ := exists_frame_of_mem_transmit ht
  refine ⟨⟨n, by rw [List.head?_append, hn]; rfl, ?_⟩, ?_⟩
  · rw [hpack, ((nw.receive_handled σ f io).leaves hg).src, hsrc]
  · exact List.isChain_append.mpr ⟨hchain, .singleton _, by simpa using hj⟩

/-! ## Counting links -/

lemma offer_hop_of_rreq {rs : Resolver} {p : OdrPack} (hty : p.type = .rreq) (clock : ℤ)
    (hw : HwAddr) (ifIdx : ℤ) :
    (offer rs clock p hw ifIdx).map Offer.hop = some p.rreq.hop := by
  rw [offer, hty]
  rfl

lemma countsLinks_new {n : Fin k} {client : UnAddr} {req : OdrReq} {t : Transit k}
    (ht : t ∈ nw.transmit (n, client) (nw.request σ n client req).sent) :
    nw.CountsLinks t [n] := by
  intro hty
  have hhop : t.pack.rreq.hop = 1 := by
    rw [(rreq_of_mem_request ht hty).2]
    rfl
  refine ⟨crossed_new ht, hhop, fun clock => ?_⟩
  rw [offer_hop_of_rreq hty, hhop]
  rfl

/-- A relay that floods an RREQ adds the link to the count. -/
lemma CountsLinks.pass {f t : Transit k} {path : List (Fin k)} (h : nw.CountsLinks f path)
    {io : UnixIo} (hnot : ¬nw.AnswersFromTable σ f)
    (ht : t ∈ nw.transmit f.cause (nw.receive σ f io).sent) :
    nw.CountsLinks t (path ++ [f.dst]) := by
  intro hty
  obtain ⟨g, hg, hpack⟩ := exists_frame_of_mem_transmit ht
  rcases pack_of_sends hg (hpack ▸ hty) with ⟨-, hg'⟩ | ⟨e, ha, -⟩
  · obtain ⟨hcross, hhop, -⟩ := h (considers_of_sends hg (hpack ▸ hty)).1
    have hlen : t.pack.rreq.hop = (path ++ [f.dst]).length := by
      rw [hpack, hg', List.length_append]
      simp [OdrPack.reflood, hhop]
    refine ⟨hcross.pass ht, hlen, fun clock => ?_⟩
    rw [offer_hop_of_rreq hty, hlen]
  · exact absurd ha hnot

/-- The copies that a relay broadcasts after it has answered claim a link too many, and there is
one of them. -/
lemma CountsLinks.not_pass {f : Transit k} {path : List (Fin k)} (h : nw.CountsLinks f path)
    (hlink : nw.Linked f.dst f.hwSrc f.ifindex) (ha : nw.AnswersFromTable σ f) (io : UnixIo) :
    ∃ t ∈ nw.transmit f.cause (nw.receive σ f io).sent, ¬nw.CountsLinks t (path ++ [f.dst]) := by
  obtain ⟨-, hhop, -⟩ := h ha.1.1
  rcases rreq_relay_cases io ha.1 with ⟨hle, -⟩ | ⟨-, hnot, -⟩ | ⟨-, -, e, -, hsent⟩
  · exact absurd ha.2.1 hle
  · exact absurd ha hnot
  -- the broadcast goes back to the sender of the RREQ, whatever else is linked to the relay
  obtain ⟨m, i, hi, j, hj, -, -, hl, hne⟩ := hlink
  have hpos : (-1 : ℤ) ≠ j.sllIfindex := by
    have hj' := nw.ifindex_pos f.dst j hj
    omega
  obtain ⟨t, ht, -, hpack⟩ := exists_mem_transmit_bcastFrames hj hi hl hne hpos
    (f.pack.answered e) f.cause
  refine ⟨t, ?_, fun hcount => ?_⟩
  · obtain ⟨g, hg, hg'⟩ := mem_transmit.mp ht
    rw [hsent]
    exact mem_transmit.mpr ⟨g, List.mem_append_right _ hg, hg'⟩
  · obtain ⟨-, hhop', -⟩ := hcount (by rw [hpack]; rfl)
    rw [hpack, List.length_append] at hhop'
    simp only [OdrPack.answered, List.length_singleton] at hhop'
    push_cast at hhop'
    omega

lemma Exact.step (h : nw.Exact tr σ) (hs : nw.Steps σ l σ') (hnot : ¬nw.TableAnswer σ l) :
    nw.Exact (tr ++ [(σ, l)]) σ' := by
  refine forall₂_ghosts_step hs h (fun n client req _ t ht => countsLinks_new ht) ?_
  rintro i io f path rfl hf hpath t ht
  exact hpath.pass (fun ha => hnot ⟨f, hf, ha⟩) ht

/-- An answer from a table spoils exactness. -/
lemma Exact.not_step (h : nw.Exact tr σ) (hwf : nw.Wf σ) (hs : nw.Steps σ l σ')
    (hans : nw.TableAnswer σ l) : ¬nw.Exact (tr ++ [(σ, l)]) σ' := by
  intro h'
  cases hs with
  | request n client req => exact hans
  | lose i f hf => exact hans
  | tick d => exact hans
  | deliver i io f hf =>
    obtain ⟨f', hf', ha⟩ := hans
    obtain rfl := Option.some_injective _ (hf.symm.trans hf')
    obtain ⟨path, hg, hcount⟩ := Lockstep.exists_ghost h hf
    obtain ⟨t, ht, hnot⟩ := hcount.not_pass (hwf.wire f (mem_wire_of_getElem hf)) ha io
    rw [Exact, ghosts_snoc] at h'
    simp only [ghostStep, hf, hg] at h'
    refine hnot (Lockstep.rel_of_append ?_ h' t ht)
    exact (Lockstep.eraseIdx h i).length_eq

/-- **When RREQ hop counts are exact.** In every run, the copies of RREQs in flight carry at all
times the number of links that they have crossed when their receiver handles them, since the
broadcast of their source and along a chain of links from it, if and only if no relay answers an
RREQ from its table. -/
theorem rreq_hop_exact_iff (hr : nw.system.Run (fun _ _ => True) tr σ) :
    Along (fun pre x => ∀ σ', nw.system.step x.1 x.2 = some σ' → nw.Exact (pre ++ [x]) σ') tr ↔
      Along (fun _ x => ¬nw.TableAnswer x.1 x.2) tr := by
  refine hr.along_iff (I := nw.Exact) (P := nw.Exact) (C := fun _ x => ¬nw.TableAnswer x.1 x.2)
    (fun σ h => ?_) ?_ (fun _ _ _ hexact => hexact) ?_
  · rw [Exact, h.wire]
    exact .nil
  · intro tr σ l σ' _ hexact _ hs hnone
    exact hexact.step (steps_of_step hs) hnone
  · intro tr σ l σ' hr hexact _ hs hnext hans
    exact hexact.not_step (wf_of_reach hr.reach) (steps_of_step hs) hans hnext

instance (σ : Net k) (l : Label k) : Decidable (nw.TableAnswer σ l) :=
  match l with
  | .request _ _ _ => .isFalse id
  | .deliver i _ => inferInstanceAs (Decidable (∃ f ∈ σ.wire[i]?, nw.AnswersFromTable σ f))
  | .lose _ => .isFalse id
  | .tick _ => .isFalse id

/-- A request on a line for its other end; the RREQ gets there, and the RREP half way back. -/
def lineHalf : List (Label 3) :=
  asks 0 0 2 :: List.replicate 3 (.deliver 0 (answering []))

theorem rreq_hop_exact_line :
    Along (fun pre x => ∀ σ', line.system.step x.1 x.2 = some σ' → line.Exact (pre ++ [x]) σ')
      (line.system.trace start lineHalf) :=
  (rreq_hop_exact_iff (run_after (by decide +kernel) fun _ _ => trivial)).mpr
    (along_iff_forall.mpr (by decide +kernel))

/-- The node asks again; the node in the middle has a route by now and answers. -/
def lineAgain : List (Label 3) := lineHalf ++ [asks 0 0 2, .deliver 1 (answering [])]

/-- The copy that the node in the middle floods after its answer has crossed two links and claims
three. -/
theorem rreq_hop_too_large :
    ¬∀ (nw : Network 3) tr σ, nw.system.Run (fun _ _ => True) tr σ → nw.Exact tr σ := by
  intro h
  have hexact : line.Exact (line.system.trace start lineAgain) (after line lineAgain) :=
    h line _ _ (run_after (by decide +kernel) fun _ _ => trivial)
  have hcopy : (((after line lineAgain).wire[3]?).bind fun f =>
      ((line.ghosts senders (line.system.trace start lineAgain))[3]?).map fun path =>
        (f.pack.type, f.pack.rreq.hop, path)) = some (.rreq, 3, [0, 1]) := by decide +kernel
  obtain ⟨f, hf, hpath⟩ := Option.bind_eq_some_iff.mp hcopy
  obtain ⟨path, hpath, hval⟩ := Option.map_eq_some_iff.mp hpath
  simp only [Prod.mk.injEq] at hval
  obtain ⟨hty, hhop, rfl⟩ := hval
  obtain ⟨-, hcount, -⟩ := Lockstep.rel_of_get hexact hf hpath hty
  rw [hhop] at hcount
  exact absurd hcount (by decide)

end Network

end Odr
