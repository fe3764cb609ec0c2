/-
# The headers of a node's own packets

`main` fills in the headers of `source_packet` after it has decided whether the table has a route
for the request, and after it has sent DATA along it.  The RREQ of a flood has the headers of its
own request.  The DATA packet has those of the request before, which are just as good, or, if
there was none, whatever `source_packet` held when `main` was entered.
-/
import Odr.Network.Origination

namespace Odr

open Lab
open Transition.System (Along along_snoc Run)

/-- Handling a packet leaves `source_packet` as it is. -/
lemma sourcePacket_of_handled {rs : Resolver} {h : Host} {io : UnixIo} {now : ℤ} {s s' : Node}
    {p : OdrPack} {srcHw : HwAddr} {recvIf : ℤ} {fr : List Frame} {ux : List UnixSend}
    (H : Handled rs h io now s p srcHw recvIf s' fr ux) :
    s'.sourcePacket = s.sourcePacket := by
  cases H <;> rfl

/-- A packet that a neighbour does not drop, with the hop count that `main` gives to an RREQ. -/
def OdrPack.Fresh (p : OdrPack) : Prop := p.WithinMaxh ∧ p.rreq.hop = 1

instance (p : OdrPack) : Decidable p.Fresh := inferInstanceAs (Decidable (_ ∧ _))

namespace Network

variable {k : ℕ} {nw : Network k} {tr : List (Net k × Label k)} {σ : Net k}

/-- If the step is a request, the node sends packets that its neighbours do not drop. -/
def SendsFresh (nw : Network k) (_ : List (Net k × Label k)) (x : Net k × Label k) : Prop :=
  ∀ n client req, x.2 = .request n client req →
    ∀ g ∈ (nw.request x.1 n client req).sent, g.pack.Fresh

/-- A client has asked the node before. -/
def Requested (tr : List (Net k × Label k)) (n : Fin k) : Prop :=
  ∃ x ∈ tr, ∃ client req, x.2 = .request n client req

/-- If the step is a request that is answered from the table, it is not the first one of its
node, or `source_packet` has happened to hold headers that will do. -/
def HasHeaders (nw : Network k) (pre : List (Net k × Label k)) (x : Net k × Label k) : Prop :=
  ∀ n client req, x.2 = .request n client req → skipDiscovery nw.rs (x.1.node n) req = true →
    Requested pre n ∨ (x.1.node n).sourcePacket.Fresh

/-- After its first request a node has headers that will do. -/
lemma fresh_of_requested (hr : nw.system.Run (fun _ _ => True) tr σ) {n : Fin k}
    (hn : Requested tr n) : (σ.node n).sourcePacket.Fresh := by
  refine Run.invariant (I := fun tr σ => ∀ n, Requested tr n → (σ.node n).sourcePacket.Fresh)
    ?_ ?_ hr n hn
  · rintro σ - n ⟨x, hx, -⟩
    simp at hx
  · rintro tr σ l σ' - ih - hs n hn
    -- a step that is no request of the node leaves the request before it in the trace
    have hold : (∀ client req, l ≠ .request n client req) → Requested tr n := by
      intro hl
      obtain ⟨x, hx, client, req, hreq⟩ := hn
      rcases List.mem_append.mp hx with hx | hx
      · exact ⟨x, hx, client, req, hreq⟩
      · obtain rfl := List.mem_singleton.mp hx
        exact absurd hreq (hl client req)
    cases (steps_of_step hs).node n with
    | same hl h =>
      rw [h]
      exact ih n (hold hl)
    | request client req hl h =>
      rw [h]
      exact ⟨⟨by simp [request, mainRequest, rreqPack, maxh],
        by simp [request, mainRequest, rreqPack, maxh]⟩, rfl⟩
    | deliver i io f hl hf hm h =>
      have hsame : (nw.receive σ f io).node.sourcePacket = (σ.node f.dst).sourcePacket :=
        sourcePacket_of_handled (nw.receive_handled σ f io)
      rw [h, hsame, ← hm]
      exact ih n (hold (by rw [hl]; simp))

/-- A request that is answered from the table sends DATA with the headers of `source_packet`. -/
lemma exists_of_skipDiscovery (hwf : nw.Wf σ) {n : Fin k} {client : UnAddr} {req : OdrReq}
    (hskip : skipDiscovery nw.rs (σ.node n) req = true) :
    ∃ g ∈ (nw.request σ n client req).sent,
      g.pack = dataPack nw.rs (nw.host n) (σ.node n) req := by
  obtain ⟨e, he⟩ := entryExistsForSrc_ne_zero.mp (of_decide_eq_true hskip).1
  -- the route goes out through an interface that the node lists
  obtain ⟨-, -, -, j, hj, -, hidx, -⟩ := hwf.route n _ e he
  rw [request, mainRequest_sent, if_pos hskip]
  exact ⟨_, mem_payloadFrames.mpr ⟨e, mem_of_findKey he, key_of_findKey he,
    mem_llFrames.mpr ⟨j, hj, hidx, rfl⟩⟩, rfl⟩

lemma sendsFresh_iff (hr : nw.system.Run (fun _ _ => True) tr σ) (l : Label k) :
    nw.SendsFresh tr (σ, l) ↔ nw.HasHeaders tr (σ, l) := by
  constructor
  · intro h n client req hl hskip
    obtain ⟨g, hg, hpack⟩ : ∃ g ∈ (nw.request σ n client req).sent,
        g.pack = dataPack nw.rs (nw.host n) (σ.node n) req :=
      exists_of_skipDiscovery (wf_of_reach hr.reach) hskip
    have hfresh := h n client req hl g hg
    rw [hpack] at hfresh
    exact Or.inr hfresh
  · intro h n client req hl g hg
    rw [request, mainRequest_sent] at hg
    split at hg
    · next hskip =>
      rw [pack_of_mem_payloadFrames hg]
      rcases h n client req hl hskip with hn | hfresh
      · exact fresh_of_requested hr hn
      · exact hfresh
    · rw [pack_of_mem_bcastFrames hg]
      exact ⟨⟨by simp [rreqPack, maxh], by simp [rreqPack, maxh]⟩, rfl⟩

/-- **When a node's own packets pass the hop check.** In every run, all packets that the requests
make their nodes send are within `MAXH` and have the hop count `1`, if and only if every request
that is answered from the table either comes after another one of its node, or finds such headers
in `source_packet` by chance. -/
theorem origin_headers_iff (hr : nw.system.Run (fun _ _ => True) tr σ) :
    Along nw.SendsFresh tr ↔ Along nw.HasHeaders tr :=
  hr.along_congr fun _ _ l _ hr _ _ => sendsFresh_iff hr l

theorem origin_headers_line :
    Along line.SendsFresh (line.system.trace start [asks 0 0 2]) ↔
      Along line.HasHeaders (line.system.trace start [asks 0 0 2]) :=
  origin_headers_iff (run_after (by decide +kernel) fun _ _ => trivial)

/-- The stack has left a large number where `main` will keep the hop count of its RREQs. -/
def litteredNode : Node := { freshNode with sourcePacket.rreq.hop := 99 }

/-- Daemons that have just started on such a stack. -/
def littered : Net k := ⟨fun _ => litteredNode, [], 0⟩

lemma littered_initial : (littered : Net k).Initial :=
  ⟨fun _ => ⟨rfl, fun _ => rfl, rfl, rfl, rfl, rfl, rfl, rfl⟩, rfl⟩

/-- The first node of a pair learns of the second, whose client looks for an unknown address. -/
def pairOverheard : List (Label 2) := [asks 1 0 8, .deliver 0 (answering [])]

/-- Its own first request then leaves with 99 hops. -/
theorem data_with_littered_headers :
    ¬∀ (nw : Network 2) tr σ, nw.system.Run (fun _ _ => True) tr σ → Along nw.SendsFresh tr := by
  intro h
  have hsome : (pair.system.exec littered (pairOverheard ++ [asks 0 0 1])).isSome := by
    decide +kernel
  have hmid : (pair.system.exec littered pairOverheard).isSome := by decide +kernel
  obtain ⟨σ, hσ⟩ := Option.isSome_iff_exists.mp hsome
  obtain ⟨σ₁, hσ₁⟩ := Option.isSome_iff_exists.mp hmid
  have hrun : pair.system.Run (fun _ _ => True) ([] ++ _) σ :=
    Transition.System.run_exec (.start littered_initial) (fun _ _ => trivial) hσ
  have hal := h pair _ _ hrun
  rw [List.nil_append, Transition.System.trace_snoc hσ₁, along_snoc] at hal
  have hframe : ∃ σ ∈ pair.system.exec littered pairOverheard,
      ∃ g ∈ (pair.request σ 0 (.client 0) (ask 1)).sent, ¬g.pack.Fresh := by decide +kernel
  obtain ⟨σ₂, hσ₂, g, hg, hnot⟩ := hframe
  obtain rfl := Option.some_injective _ (hσ₁.symm.trans hσ₂)
  exact hnot (hal.2 0 (.client 0) (ask 1) rfl g hg)

end Network

end Odr
