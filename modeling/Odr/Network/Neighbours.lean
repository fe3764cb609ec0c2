/-
# Next hops are neighbours

In every reachable state the next hop of an entry is the address of an interface on the link of
the interface that the entry names.  So a frame that is not broadcast, which always leaves along
an entry, has a receiver: `Handled.unicast` finds the entry, `Linked.delivered` the receiver.
-/
import Odr.Network.Lab
import Odr.Network.Invariants

namespace Odr

open Lab

section

variable {rs : Resolver} {h : Host} {io : UnixIo} {now : ℤ} {s s' : Node} {p : OdrPack}
  {srcHw : HwAddr} {recvIf : ℤ} {fr : List Frame} {ux : List UnixSend} {g : Frame}

/-- The frame is one that `send_ll_msg` makes of an entry of the table. -/
def Frame.Routed (g : Frame) (ifs : List IfInfo) (t : Rtbl) : Prop :=
  ∃ e ∈ t, g ∈ llFrames ifs g.pack e.nextHopHwaddr e.ifNo

lemma routed_of_mem_llFrames {ifs : List IfInfo} {q : OdrPack} {t : Rtbl} {key : ℤ}
    {e : RtblEntry} (he : findKey key t = some e)
    (hg : g ∈ llFrames ifs q e.nextHopHwaddr e.ifNo) : g.Routed ifs t := by
  refine ⟨e, mem_of_findKey he, ?_⟩
  rwa [pack_of_mem_llFrames hg]

lemma routed_of_mem_payloadFrames {ifs : List IfInfo} {q : OdrPack} {t : Rtbl} {key : ℤ}
    (hg : g ∈ payloadFrames ifs t q key) : g.Routed ifs t := by
  obtain ⟨e, he, -, hg'⟩ := mem_payloadFrames.mp hg
  refine ⟨e, he, ?_⟩
  rwa [pack_of_mem_llFrames hg']

/-- A frame that a handler sends is a broadcast RREQ or leaves along an entry. -/
lemma Handled.unicast (H : Handled rs h io now s p srcHw recvIf s' fr ux) (hg : g ∈ fr) :
    (g.pack.type = .rreq ∧ g.hDest = broadcastAddr) ∨
      g.Routed h.ifInfoList (s.learn rs h now p srcHw recvIf).rtbl := by
  have hbcast : ∀ {q : OdrPack} {i : ℤ}, g ∈ bcastFrames h.ifInfoList q i → q.type = .rreq →
      g.pack.type = .rreq ∧ g.hDest = broadcastAddr := by
    intro q i hg hq
    obtain ⟨j, -, -, rfl⟩ := mem_bcastFrames.mp hg
    exact ⟨hq, rfl⟩
  cases H with
  | rreqDest hop hty hsent hself e he => exact Or.inr (routed_of_mem_llFrames he hg)
  | rreqFlood hop hty => exact Or.inl (hbcast hg hty)
  | rreqAnswer hop hty hsent hself hnew hforced e he =>
    rcases List.mem_append.mp hg with hg | hg
    · exact Or.inr (routed_of_mem_llFrames he hg)
    · exact Or.inl (hbcast hg rfl)
  | rrepSource => exact Or.inr (routed_of_mem_payloadFrames hg)
  | rrepRelay hop hty hself e he => exact Or.inr (routed_of_mem_llFrames he hg)
  | dataTurn => exact Or.inr (routed_of_mem_payloadFrames hg)
  | dataToServer => exact Or.inr (routed_of_mem_payloadFrames hg)
  | dataToClient => exact Or.inr (routed_of_mem_payloadFrames hg)
  | _ => simp at hg

end

namespace Network

variable {k : ℕ} {nw : Network k}

/-- The frame is not broadcast and an interface receives it. -/
def Delivered (nw : Network k) (g : Frame) : Prop :=
  g.hDest ≠ broadcastAddr ∧ ∃ m, ∃ j ∈ nw.ifs m, nw.receives g j

/-- A frame sent to a linked address has a receiver. -/
lemma Linked.delivered {n : Fin k} {hw : HwAddr} {ifNo : ℤ} (h : nw.Linked n hw ifNo)
    {q : OdrPack} {g : Frame} (hg : g ∈ llFrames (nw.ifs n) q hw ifNo) : nw.Delivered g := by
  obtain ⟨m, i, hi, j, hj, rfl, rfl, hl, hne⟩ := h
  obtain ⟨i', hi', hidx, rfl⟩ := mem_llFrames.mp hg
  -- the node has one interface with this index, so the frame leaves on the link of the address
  obtain rfl : i' = j := nw.ifindex_unique n i' hi' j hj hidx
  refine ⟨nw.hw_ne_broadcast m i hi, m, i, hi, ?_⟩
  simp only [receives, decide_eq_true_eq]
  exact ⟨hl, hne, by simp⟩

lemma delivered_of_routed {n : Fin k} {t : Rtbl} {g : Frame} (hg : g.Routed (nw.ifs n) t)
    (ht : ∀ e ∈ t, nw.Linked n e.nextHopHwaddr e.ifNo) : nw.Delivered g := by
  obtain ⟨e, he, hg⟩ := hg
  exact (ht e he).delivered hg

lemma Wf.linked_of_mem {σ : Net k} (hwf : nw.Wf σ) (n : Fin k) :
    ∀ e ∈ (σ.node n).rtbl, nw.Linked n e.nextHopHwaddr e.ifNo :=
  fun e he => hwf.route n e.key e (findKey_of_mem (hwf.nodup n) he)

lemma Wf.linked_of_mem_learned {σ : Net k} (hwf : nw.Wf σ) {f : Transit k} (hf : f ∈ σ.wire) :
    ∀ e ∈ (nw.learned σ f).rtbl, nw.Linked f.dst e.nextHopHwaddr e.ifNo := fun _ he =>
  linked_of_findKey_learned hwf hf
    (findKey_of_mem (keyNodup_updateRtblEntry _ (hwf.nodup f.dst)) he)

lemma Wf.delivered_of_receive {σ : Net k} (hwf : nw.Wf σ) {f : Transit k} (hf : f ∈ σ.wire)
    {io : UnixIo} {g : Frame} (hg : g ∈ (nw.receive σ f io).sent) :
    (g.pack.type = .rreq ∧ g.hDest = broadcastAddr) ∨ nw.Delivered g := by
  rcases (nw.receive_handled σ f io).unicast hg with h | h
  · exact Or.inl h
  · exact Or.inr (delivered_of_routed h (hwf.linked_of_mem_learned hf))

lemma Wf.delivered_of_request {σ : Net k} (hwf : nw.Wf σ) {n : Fin k} {client : UnAddr}
    {req : OdrReq} {g : Frame} (hg : g ∈ (nw.request σ n client req).sent) :
    (g.pack.type = .rreq ∧ g.hDest = broadcastAddr) ∨ nw.Delivered g := by
  rw [request, mainRequest_sent] at hg
  split at hg
  · exact Or.inr (delivered_of_routed (routed_of_mem_payloadFrames hg) (hwf.linked_of_mem n))
  · obtain ⟨j, -, -, rfl⟩ := mem_bcastFrames.mp hg
    exact Or.inl ⟨rfl, rfl⟩

/-- **Next hops are always neighbours.** In every reachable state the next hop of every entry is
the address of an interface on the link of the node's interface with the entry's index.  Hence
every frame that a client's request or the delivery of any copy in flight makes a node send,
other than the broadcast RREQs, has a receiver. -/
theorem next_hop_neighbour {σ : Net k} (hr : nw.system.Reach (fun _ _ => True) σ) :
    (∀ n, ∀ e ∈ (σ.node n).rtbl, nw.Linked n e.nextHopHwaddr e.ifNo) ∧
      (∀ f ∈ σ.wire, ∀ io, ∀ g ∈ (nw.receive σ f io).sent,
        (g.pack.type = .rreq ∧ g.hDest = broadcastAddr) ∨ nw.Delivered g) ∧
      ∀ n client req, ∀ g ∈ (nw.request σ n client req).sent,
        (g.pack.type = .rreq ∧ g.hDest = broadcastAddr) ∨ nw.Delivered g := by
  have hwf := wf_of_reach hr
  exact ⟨hwf.linked_of_mem, fun f hf io g hg => hwf.delivered_of_receive hf hg,
    fun n client req g hg => hwf.delivered_of_request hg⟩

/-- A request whose RREQ has crossed both links of a line. -/
def lineFlood : List (Label 3) := [asks 0 0 2, .deliver 0 (answering []), .deliver 0 (answering [])]

theorem next_hop_neighbour_line :
    ((after line lineFlood).node 2).rtbl ≠ [] ∧
      ∀ n, ∀ e ∈ ((after line lineFlood).node n).rtbl, line.Linked n e.nextHopHwaddr e.ifNo :=
  ⟨by decide +kernel, (next_hop_neighbour (reach_after (by decide +kernel) fun _ _ => trivial)).1⟩

end Network

end Odr
