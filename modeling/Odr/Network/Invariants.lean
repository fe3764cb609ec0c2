/-
# What holds of every run

`Wf` collects what is true in every reachable state, whatever the order of the steps: each
table has at most one entry for a key, each next hop is the address of an interface on the
link of the interface the entry names, and the same holds of the sender of every copy in
flight.
-/
import Odr.Network.Step

namespace Odr

section

variable {rs : Resolver} {h : Host} {io : UnixIo} {now : ℤ} {s s' : Node} {p : OdrPack}
  {srcHw : HwAddr} {recvIf : ℤ} {fr : List Frame} {ux : List UnixSend}

/-- Handling a packet changes the table by the update alone. -/
lemma Handled.rtbl (H : Handled rs h io now s p srcHw recvIf s' fr ux) :
    s'.rtbl = if p.WithinMaxh then (s.learn rs h now p srcHw recvIf).rtbl else s.rtbl := by
  cases H with
  | dropped hop => rw [if_neg hop]
  | unknown hop n hty => rw [if_pos hop, Node.learn, updateRtblEntry, hty]
  | rreqFlood hop => rw [if_pos hop]; rfl
  | rreqAnswer hop => rw [if_pos hop]; rfl
  | rreqKnown hop => rw [if_pos hop]
  | rreqDest hop => rw [if_pos hop]
  | rreqDup hop => rw [if_pos hop]
  | rrepSource hop => rw [if_pos hop]
  | rrepLate hop => rw [if_pos hop]
  | rrepLost hop => rw [if_pos hop]
  | rrepRelay hop => rw [if_pos hop]
  | dataClient hop => rw [if_pos hop]
  | dataTimeout hop => rw [if_pos hop]
  | dataTurn hop => rw [if_pos hop]
  | dataToServer hop => rw [if_pos hop]
  | dataToClient hop => rw [if_pos hop]
  | dataStray hop => rw [if_pos hop]

/-- The frame leaves from one of these interfaces. -/
def Frame.From (f : Frame) (ifs : List IfInfo) : Prop :=
  ∃ i ∈ ifs, f.hSource = i.sllAddr ∧ f.ifindex = i.sllIfindex

lemma from_of_mem_llFrames {ifs : List IfInfo} {hw : HwAddr} {ifNo : ℤ} {f : Frame}
    (hf : f ∈ llFrames ifs p hw ifNo) : f.From ifs := by
  obtain ⟨i, hi, hidx, rfl⟩ := mem_llFrames.mp hf
  exact ⟨i, hi, rfl, hidx.symm⟩

lemma from_of_mem_bcastFrames {ifs : List IfInfo} {f : Frame}
    (hf : f ∈ bcastFrames ifs p recvIf) : f.From ifs := by
  obtain ⟨i, hi, -, rfl⟩ := mem_bcastFrames.mp hf
  exact ⟨i, hi, rfl, rfl⟩

lemma from_of_mem_payloadFrames {ifs : List IfInfo} {t : Rtbl} {key : ℤ} {f : Frame}
    (hf : f ∈ payloadFrames ifs t p key) : f.From ifs := by
  obtain ⟨e, -, -, hf'⟩ := mem_payloadFrames.mp hf
  exact from_of_mem_llFrames hf'

/-- Every frame leaves from an interface of the node, under that interface's address. -/
lemma Handled.from_of_mem (H : Handled rs h io now s p srcHw recvIf s' fr ux) {f : Frame}
    (hf : f ∈ fr) : f.From h.ifInfoList := by
  cases H with
  | rreqDest => exact from_of_mem_llFrames hf
  | rreqFlood => exact from_of_mem_bcastFrames hf
  | rreqAnswer =>
    rcases List.mem_append.mp hf with hf | hf
    · exact from_of_mem_llFrames hf
    · exact from_of_mem_bcastFrames hf
  | rrepSource => exact from_of_mem_payloadFrames hf
  | rrepRelay => exact from_of_mem_llFrames hf
  | dataTurn => exact from_of_mem_payloadFrames hf
  | dataToServer => exact from_of_mem_payloadFrames hf
  | dataToClient => exact from_of_mem_payloadFrames hf
  | _ => simp at hf

end

namespace Network

variable {k : ℕ} {nw : Network k}

lemma from_of_mem_request {σ : Net k} {n : Fin k} {client : UnAddr} {req : OdrReq} {f : Frame}
    (hf : f ∈ (nw.request σ n client req).sent) : f.From (nw.ifs n) := by
  rw [request, mainRequest_sent] at hf
  split at hf
  · exact from_of_mem_payloadFrames hf
  · exact from_of_mem_bcastFrames hf

/-- A request makes its node send DATA along the table, or an RREQ. -/
lemma pack_of_mem_request {σ : Net k} {n : Fin k} {client : UnAddr} {req : OdrReq} {g : Frame}
    (hg : g ∈ (nw.request σ n client req).sent) :
    g.pack = dataPack nw.rs (nw.host n) (σ.node n) req ∨
      (skipDiscovery nw.rs (σ.node n) req = false ∧
        g.pack = rreqPack nw.rs (nw.host n) (σ.node n) req) := by
  rw [request, mainRequest_sent] at hg
  split at hg
  · exact Or.inl (pack_of_mem_payloadFrames hg)
  · next hskip => exact Or.inr ⟨by simpa using hskip, pack_of_mem_bcastFrames hg⟩

/-- The RREQs that a request sets off. -/
lemma rreq_of_mem_request {σ : Net k} {n : Fin k} {client : UnAddr} {req : OdrReq}
    {cause : Fin k × UnAddr} {t : Transit k}
    (ht : t ∈ nw.transmit cause (nw.request σ n client req).sent) (hty : t.pack.type = .rreq) :
    skipDiscovery nw.rs (σ.node n) req = false ∧
      t.pack = rreqPack nw.rs (nw.host n) (σ.node n) req := by
  obtain ⟨g, hg, hpack⟩ := exists_frame_of_mem_transmit ht
  rcases pack_of_mem_request hg with h | ⟨hskip, h⟩
  · rw [hpack, h] at hty
    simp [dataPack] at hty
  · exact ⟨hskip, hpack.trans h⟩

lemma receive_handled (nw : Network k) (σ : Net k) (f : Transit k) (io : UnixIo) :
    Handled nw.rs (nw.host f.dst) io σ.clock (σ.node f.dst) f.pack f.hwSrc f.ifindex
      (nw.receive σ f io).node (nw.receive σ f io).sent (nw.receive σ f io).unix :=
  processPack_handled

/-- The state of the receiving node once its table has been updated. -/
def learned (nw : Network k) (σ : Net k) (f : Transit k) : Node :=
  (σ.node f.dst).learn nw.rs (nw.host f.dst) σ.clock f.pack f.hwSrc f.ifindex

/-- The offer that a copy in flight makes on delivery. -/
def offerOf (nw : Network k) (σ : Net k) (f : Transit k) : Option Offer :=
  offer nw.rs σ.clock f.pack f.hwSrc f.ifindex

lemma rtbl_receive (σ : Net k) (f : Transit k) (io : UnixIo) :
    (nw.receive σ f io).node.rtbl =
      if f.pack.WithinMaxh then (nw.learned σ f).rtbl else (σ.node f.dst).rtbl :=
  (nw.receive_handled σ f io).rtbl

/-! ## Links -/

/-- The address `hw` is that of an interface on the same link as the node's interface with
index `ifNo`. -/
def Linked (nw : Network k) (n : Fin k) (hw : HwAddr) (ifNo : ℤ) : Prop :=
  ∃ m, ∃ i ∈ nw.ifs m, ∃ j ∈ nw.ifs n, i.sllAddr = hw ∧ j.sllIfindex = ifNo ∧
    nw.link i.sllAddr = nw.link j.sllAddr ∧ i.sllAddr ≠ j.sllAddr

lemma Linked.exists_owns {n : Fin k} {hw : HwAddr} {ifNo : ℤ} (h : nw.Linked n hw ifNo) :
    ∃ m, nw.Owns m hw := by
  obtain ⟨m, i, hi, -, -, rfl, -⟩ := h
  exact ⟨m, i, hi, rfl⟩

/-- The owner of a linked address is a neighbour, unless it is the node itself. -/
lemma Linked.adj {n m : Fin k} {hw : HwAddr} {ifNo : ℤ} (h : nw.Linked n hw ifNo)
    (hm : nw.Owns m hw) (hne : n ≠ m) : nw.graph.Adj n m := by
  obtain ⟨m', i, hi, j, hj, rfl, -, hl, -⟩ := h
  obtain rfl : m = m' := hm.unique ⟨i, hi, rfl⟩
  exact ⟨hne, j, hj, i, hi, hl.symm⟩

/-- A frame sent to an owned address arrives at its owner. -/
lemma owns_of_mem_transmit_llFrames {ifs : List IfInfo} {p : OdrPack} {hw : HwAddr} {ifNo : ℤ}
    {m : Fin k} (hm : nw.Owns m hw) {cause : Fin k × UnAddr} {t : Transit k}
    (ht : t ∈ nw.transmit cause (llFrames ifs p hw ifNo)) : nw.Owns t.dst hw := by
  obtain ⟨g, hg, j, hj, hr, -⟩ := mem_transmit.mp ht
  obtain ⟨i, -, -, rfl⟩ := mem_llFrames.mp hg
  obtain ⟨i', hi', hhw⟩ := hm
  simp only [receives, decide_eq_true_eq] at hr
  rcases hr.2.2 with hb | hb
  · exact absurd (hhw.trans hb) (nw.hw_ne_broadcast m i' hi')
  · exact ⟨j, hj, hb.symm⟩

/-- The receiver of a payload sent along a table's entries. -/
lemma exists_hop_of_mem_transmit {t : Rtbl} {ifs : List IfInfo} {q : OdrPack} {key : ℤ}
    {cause : Fin k × UnAddr} {c : Transit k} (ht : KeyNodup t)
    (hown : ∀ e, findKey key t = some e → ∃ m, nw.Owns m e.nextHopHwaddr)
    (hc : c ∈ nw.transmit cause (payloadFrames ifs t q key)) :
    c.pack = q ∧ ∃ e, findKey key t = some e ∧ nw.Owns c.dst e.nextHopHwaddr := by
  obtain ⟨g, hg, j, hj, hr, hidx, hsrc, hpack, hcause⟩ := mem_transmit.mp hc
  obtain ⟨e, he, rfl, hg'⟩ := mem_payloadFrames.mp hg
  have hfind := findKey_of_mem ht he
  obtain ⟨m, hm⟩ := hown e hfind
  have hc' : c ∈ nw.transmit cause (llFrames ifs q e.nextHopHwaddr e.ifNo) :=
    mem_transmit.mpr ⟨g, hg', j, hj, hr, hidx, hsrc, hpack, hcause⟩
  exact ⟨hpack.trans (pack_of_mem_llFrames hg'), e, hfind, owns_of_mem_transmit_llFrames hm hc'⟩

/-- A frame sent to a linked address through the interface that links it arrives. -/
lemma Linked.exists_mem_transmit {n m : Fin k} {hw : HwAddr} {ifNo : ℤ}
    (h : nw.Linked n hw ifNo) (hm : nw.Owns m hw) (q : OdrPack) (cause : Fin k × UnAddr) :
    ∃ c ∈ nw.transmit cause (llFrames (nw.ifs n) q hw ifNo), c.dst = m ∧ c.pack = q := by
  obtain ⟨m', i, hi, j, hj, rfl, rfl, hl, hne⟩ := h
  obtain rfl : m = m' := hm.unique ⟨i, hi, rfl⟩
  refine ⟨⟨m, i.sllIfindex, j.sllAddr, q, cause⟩, ?_, rfl, rfl⟩
  refine mem_transmit.mpr ⟨⟨i.sllAddr, j.sllAddr, j.sllIfindex, q⟩,
    mem_llFrames.mpr ⟨j, hj, rfl, rfl⟩, i, hi, ?_, rfl, rfl, rfl, rfl⟩
  simp only [receives, decide_eq_true_eq]
  exact ⟨hl, hne, by simp⟩

/-- A copy of a broadcast frame comes from an interface other than the receiving one. -/
lemma exists_of_mem_transmit_bcastFrames {ifs : List IfInfo} {q : OdrPack} {recvIf : ℤ}
    {cause : Fin k × UnAddr} {t : Transit k}
    (ht : t ∈ nw.transmit cause (bcastFrames ifs q recvIf)) :
    t.pack = q ∧ ∃ i ∈ ifs, recvIf ≠ i.sllIfindex ∧ t.hwSrc = i.sllAddr := by
  obtain ⟨g, hg, -, -, -, -, hsrc, hpack, -⟩ := mem_transmit.mp ht
  obtain ⟨i, hi, hne, rfl⟩ := mem_bcastFrames.mp hg
  exact ⟨hpack, i, hi, hne, hsrc⟩

/-- A broadcast frame arrives at the other interfaces on the links it is sent to. -/
lemma exists_mem_transmit_bcastFrames {n m : Fin k} {i j : IfInfo} (hi : i ∈ nw.ifs n)
    (hj : j ∈ nw.ifs m) (hl : nw.link j.sllAddr = nw.link i.sllAddr)
    (hne : j.sllAddr ≠ i.sllAddr) {recvIf : ℤ} (hr : recvIf ≠ i.sllIfindex) (q : OdrPack)
    (cause : Fin k × UnAddr) :
    ∃ t ∈ nw.transmit cause (bcastFrames (nw.ifs n) q recvIf), t.dst = m ∧ t.pack = q := by
  refine ⟨⟨m, j.sllIfindex, i.sllAddr, q, cause⟩, ?_, rfl, rfl⟩
  refine mem_transmit.mpr ⟨⟨broadcastAddr, i.sllAddr, i.sllIfindex, q⟩,
    mem_bcastFrames.mpr ⟨i, hi, hr, rfl⟩, j, hj, ?_, rfl, rfl, rfl, rfl⟩
  simp only [receives, decide_eq_true_eq]
  exact ⟨hl, hne, by simp⟩

/-- The invariant of all runs. -/
structure Wf (nw : Network k) (σ : Net k) : Prop where
  nodup : ∀ n, KeyNodup (σ.node n).rtbl
  route : ∀ n key e, findKey key (σ.node n).rtbl = some e → nw.Linked n e.nextHopHwaddr e.ifNo
  wire : ∀ f ∈ σ.wire, nw.Linked f.dst f.hwSrc f.ifindex

/-- What a node hands to the link layer arrives over a link. -/
lemma linked_of_mem_transmit {n : Fin k} {frames : List Frame} {cause : Fin k × UnAddr}
    (hfr : ∀ f ∈ frames, f.From (nw.ifs n)) {t : Transit k}
    (ht : t ∈ nw.transmit cause frames) : nw.Linked t.dst t.hwSrc t.ifindex := by
  obtain ⟨f, hf, j, hj, hr, hidx, hsrc, -, -⟩ := mem_transmit.mp ht
  obtain ⟨i, hi, hfi, -⟩ := hfr f hf
  simp only [receives, decide_eq_true_eq] at hr
  rw [hsrc, hidx, hfi]
  rw [hfi] at hr
  exact ⟨n, i, hi, j, hj, rfl, rfl, hr.1.symm, hr.2.1.symm⟩

/-- Two interfaces of the nodes are on one link. -/
def Joined (nw : Network k) (n m : Fin k) : Prop :=
  ∃ i ∈ nw.ifs n, ∃ j ∈ nw.ifs m, nw.link j.sllAddr = nw.link i.sllAddr ∧ j.sllAddr ≠ i.sllAddr

/-- What a node hands to the link layer arrives at a node that shares a link with it. -/
lemma joined_of_mem_transmit {n : Fin k} {frames : List Frame} {cause : Fin k × UnAddr}
    (hfr : ∀ f ∈ frames, f.From (nw.ifs n)) {t : Transit k}
    (ht : t ∈ nw.transmit cause frames) : nw.Joined n t.dst := by
  obtain ⟨f, hf, j, hj, hr, -⟩ := mem_transmit.mp ht
  obtain ⟨i, hi, hfi, -⟩ := hfr f hf
  simp only [receives, decide_eq_true_eq, hfi] at hr
  exact ⟨i, hi, j, hj, hr.1, hr.2.1⟩

/-- Nodes that share a link are neighbours, unless they are the same. -/
lemma Joined.adj {n m : Fin k} (h : nw.Joined n m) (hne : n ≠ m) : nw.graph.Adj n m := by
  obtain ⟨i, hi, j, hj, hl, -⟩ := h
  exact ⟨hne, i, hi, j, hj, hl.symm⟩

/-- A linked update of a table whose routes are linked. -/
lemma linked_of_findKey_learned {σ : Net k} {f : Transit k} (hwf : nw.Wf σ) (hf : f ∈ σ.wire)
    {key : ℤ} {e : RtblEntry} (he : findKey key (nw.learned σ f).rtbl = some e) :
    nw.Linked f.dst e.nextHopHwaddr e.ifNo := by
  rcases findKey_updateRtblEntry_cases _ he with ⟨e₀, ip, he₀, rfl⟩ | ⟨o, -, -, hn, hi, -⟩
  · exact hwf.route f.dst key e₀ he₀
  · rw [hn, hi]
    exact hwf.wire f hf

theorem Wf.initial {σ : Net k} (h : σ.Initial) : nw.Wf σ where
  nodup n := by rw [(h.node n).rtbl]; simp [KeyNodup]
  route n key e he := by rw [(h.node n).rtbl, findKey_nil] at he; simp at he
  wire f hf := by rw [h.wire] at hf; simp at hf

/-- **Every step keeps the tables and the wire well formed.** -/
theorem Wf.step {σ σ' : Net k} {l : Label k} (hwf : nw.Wf σ) (hs : nw.Steps σ l σ') :
    nw.Wf σ' := by
  refine ⟨fun m => ?_, fun m key e he => ?_, fun t ht => ?_⟩
  · cases hs.node m with
    | same hl h => rw [h]; exact hwf.nodup m
    | request client req hl h => rw [h]; exact hwf.nodup m
    | deliver i io f hl hf hm h =>
      subst hm
      rw [h, rtbl_receive]
      split
      · exact keyNodup_updateRtblEntry _ (hwf.nodup f.dst)
      · exact hwf.nodup f.dst
  · cases hs.node m with
    | same hl h => rw [h] at he; exact hwf.route m key e he
    | request client req hl h => rw [h] at he; exact hwf.route m key e he
    | deliver i io f hl hf hm h =>
      subst hm
      rw [h, rtbl_receive] at he
      -- a dropped packet is not read into the table
      split at he
      · exact linked_of_findKey_learned hwf (mem_wire_of_getElem hf) he
      · exact hwf.route f.dst key e he
  · cases hs.wire ht with
    | old h => exact hwf.wire t h
    | request n client req hl h =>
      exact linked_of_mem_transmit (fun f hf => from_of_mem_request hf) h
    | deliver i io f hl hf h =>
      exact linked_of_mem_transmit (fun g hg => (nw.receive_handled σ f io).from_of_mem hg) h

/-- Every reachable state is well formed. -/
theorem wf_of_reach {ok : Net k → Label k → Prop} {σ : Net k} (h : nw.system.Reach ok σ) :
    nw.Wf σ :=
  h.invariant (fun _ => Wf.initial) fun _ _ _ _ hwf _ hs => hwf.step (steps_of_step hs)

end Network

end Odr
