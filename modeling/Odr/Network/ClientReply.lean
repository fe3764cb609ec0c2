/-
# Replies to clients

A daemon serves several clients, but keeps one address: that of the client whose datagram
`main` handled last.  Every reply goes there, and nothing in a packet says which request it
belongs to.  The history of a run is its trace; the client that set off a chain of packets is
recorded in the `cause` of every copy in flight.
-/
import Odr.Network.Invariants
import Odr.Network.Lab

namespace Odr

open Lab Transition.System

namespace Network

variable {k : ℕ} {nw : Network k}

/-- The client of a request at the node `n`. -/
def clientAt (n : Fin k) : Label k → Option UnAddr
  | .request m client _ => if m = n then some client else none
  | _ => none

/-- The client whose datagram the node `n` handled last. -/
def lastClient (tr : List (Net k × Label k)) (n : Fin k) : Option UnAddr :=
  lastOf (fun x => clientAt n x.2) tr

/-- The client has sent a request to the node. -/
def Asked (tr : List (Net k × Label k)) (n : Fin k) (client : UnAddr) : Prop :=
  ∃ x ∈ tr, clientAt n x.2 = some client

lemma clientAt_of_ne {n : Fin k} {l : Label k} (h : ∀ client req, l ≠ .request n client req) :
    clientAt n l = none := by
  cases l with
  | request m client req =>
    rw [clientAt, if_neg]
    rintro rfl
    exact h client req rfl
  | deliver i io => rfl
  | lose i => rfl
  | tick d => rfl

lemma Asked.mono {tr : List (Net k × Label k)} {n : Fin k} {client : UnAddr}
    (h : Asked tr n client) (x : Net k × Label k) : Asked (tr ++ [x]) n client := by
  obtain ⟨y, hy, hc⟩ := h
  exact ⟨y, List.mem_append_left _ hy, hc⟩

/-- Handling a packet leaves the address of the client as it is. -/
lemma alClientAddr_of_handled {rs : Resolver} {h : Host} {io : UnixIo} {now : ℤ} {s s' : Node}
    {p : OdrPack} {srcHw : HwAddr} {recvIf : ℤ} {fr : List Frame} {ux : List UnixSend}
    (H : Handled rs h io now s p srcHw recvIf s' fr ux) :
    s'.alClientAddr = s.alClientAddr := by
  cases H <;> rfl

lemma src_of_mem_request {σ : Net k} {n : Fin k} {client : UnAddr} {req : OdrReq} {g : Frame}
    (hg : g ∈ (nw.request σ n client req).sent) : g.pack.srcCanIpStr = nw.addr n := by
  rcases pack_of_mem_request hg with h | ⟨-, h⟩
  · rw [h]; rfl
  · rw [h]; rfl

/-- What a run leaves: each node's client is the last one that asked, and every copy in flight
goes back to a request at its source. -/
structure Traced (nw : Network k) (tr : List (Net k × Label k)) (σ : Net k) : Prop where
  client : ∀ n, (σ.node n).alClientAddr = lastClient tr n
  src : ∀ f ∈ σ.wire, f.pack.srcCanIpStr = nw.addr f.cause.1
  asked : ∀ f ∈ σ.wire, Asked tr f.cause.1 f.cause.2

lemma Traced.initial {σ : Net k} (h : σ.Initial) : nw.Traced [] σ where
  client n := (h.node n).alClientAddr
  src f hf := by rw [h.wire] at hf; simp at hf
  asked f hf := by rw [h.wire] at hf; simp at hf

theorem Traced.step {tr : List (Net k × Label k)} {σ σ' : Net k} {l : Label k}
    (ht : nw.Traced tr σ) (hs : nw.Steps σ l σ') : nw.Traced (tr ++ [(σ, l)]) σ' := by
  refine ⟨fun n => ?_, fun t hmem => ?_, fun t hmem => ?_⟩
  · rw [lastClient, lastOf_snoc]
    cases hs.node n with
    | same hl h =>
      rw [h, clientAt_of_ne hl]
      exact ht.client n
    | request client req hl h =>
      subst hl
      rw [h, clientAt, if_pos rfl]
      rfl
    | deliver i io f hl hf hn h =>
      subst hl hn
      rw [h, alClientAddr_of_handled (nw.receive_handled σ f io)]
      exact ht.client f.dst
  · cases hs.wire hmem with
    | old h => exact ht.src t h
    | request n client req hl h =>
      obtain ⟨g, hg, -, -, -, -, -, hpack, hcause⟩ := mem_transmit.mp h
      rw [hpack, hcause]
      exact src_of_mem_request hg
    | deliver i io f hl hf h =>
      obtain ⟨g, hg, -, -, -, -, -, hpack, hcause⟩ := mem_transmit.mp h
      rw [hpack, hcause, ((nw.receive_handled σ f io).leaves hg).src]
      exact ht.src f (mem_wire_of_getElem hf)
  · cases hs.wire hmem with
    | old h => exact (ht.asked t h).mono _
    | request n client req hl h =>
      obtain ⟨g, hg, -, -, -, -, -, -, hcause⟩ := mem_transmit.mp h
      subst hl
      rw [hcause]
      exact ⟨_, List.mem_append_right _ (List.mem_singleton.mpr rfl), by simp [clientAt]⟩
    | deliver i io f hl hf h =>
      obtain ⟨g, hg, -, -, -, -, -, -, hcause⟩ := mem_transmit.mp h
      rw [hcause]
      exact (ht.asked f (mem_wire_of_getElem hf)).mono _

lemma traced_of_run {ok : Net k → Label k → Prop} {tr : List (Net k × Label k)} {σ : Net k}
    (hr : nw.system.Run ok tr σ) : nw.Traced tr σ :=
  hr.invariant (fun _ => Traced.initial) fun _ _ _ _ _ ht _ hs => ht.step (steps_of_step hs)

/-- The address that a reply goes to. -/
lemma addr_of_toClient {rs : Resolver} {h : Host} {io : UnixIo} {now : ℤ} {s s' : Node}
    {p : OdrPack} {srcHw : HwAddr} {recvIf : ℤ} {fr : List Frame} {ux : List UnixSend}
    (H : Handled rs h io now s p srcHw recvIf s' fr ux) {a : Option UnAddr} {r : OdrReply}
    (hu : .toClient a r ∈ ux) : isSelfSrc h p.srcCanIpStr ≠ 0 ∧ a = s.alClientAddr := by
  cases H with
  | dataClient hop hty hself =>
    have hu' := List.mem_singleton.mp hu
    simp only [UnixSend.toClient.injEq] at hu'
    exact ⟨hself, hu'.1⟩
  | dataTimeout => simp at hu
  | dataTurn => simp at hu
  | _ => simp at hu

/-- **A reply goes to the client that asked last.** In every run, when the delivery of a packet
makes a daemon send a reply, the request that set off the packet was made at this node, and the
reply is addressed to the client whose datagram this node handled last.  So it reaches the
client of that request exactly when it is the one that asked last. -/
theorem reply_to_last_client {nw : NamedNetwork k} {tr : List (Net k × Label k)} {σ : Net k}
    (hr : nw.system.Run (fun _ _ => True) tr σ) {f : Transit k} (hf : f ∈ σ.wire) {io : UnixIo}
    {a : Option UnAddr} {r : OdrReply} (hu : .toClient a r ∈ (nw.receive σ f io).unix) :
    f.cause.1 = f.dst ∧ Asked tr f.dst f.cause.2 ∧ a = lastClient tr f.dst ∧
      (a = some f.cause.2 ↔ lastClient tr f.dst = some f.cause.2) := by
  have ht := traced_of_run hr
  obtain ⟨hself, ha⟩ := addr_of_toClient (nw.receive_handled σ f io) hu
  have hdst : f.pack.srcCanIpStr = nw.addr f.dst := isSelfSrc_ne_zero.mp hself
  have hcause : f.cause.1 = f.dst := addr_inj ((ht.src f hf).symm.trans hdst)
  have haddr : a = lastClient tr f.dst := ha.trans (ht.client f.dst)
  exact ⟨hcause, hcause ▸ ht.asked f hf, haddr, by rw [haddr]⟩

/-- Two clients of the first node of a pair ask for the second one after the other; the request
of the second client is answered from the table while the answer to the first is on its way. -/
def pairClients : List (Label 2) :=
  [asks 0 0 1, .deliver 0 (answering []), .deliver 0 (answering []),
    asks 0 1 1, .deliver 0 (answering [65])]

theorem reply_to_last_client_pair :
    ∃ f ∈ (after pair pairClients).wire, f.cause.1 = f.dst ∧
      (some (.client 1) = lastClient (pair.system.trace start pairClients) f.dst) := by
  have hex : ∃ f ∈ (after pair pairClients).wire,
      (pair.receive (after pair pairClients) f (answering [])).unix =
        [.toClient (some (.client 1)) ⟨65 :: List.replicate 31 0, ip 1, 57575⟩] := by
    decide +kernel
  obtain ⟨f, hf, hux⟩ := hex
  have hu : UnixSend.toClient (some (.client 1)) ⟨65 :: List.replicate 31 0, ip 1, 57575⟩ ∈
      (pair.receive (after pair pairClients) f (answering [])).unix := by
    rw [hux]
    exact List.mem_singleton.mpr rfl
  have h := reply_to_last_client (run_after (by decide +kernel) fun _ _ => trivial) hf hu
  exact ⟨f, hf, h.1, h.2.2.1⟩

/-- The answer to the first client goes to the second. -/
theorem reply_to_other_client :
    ∃ σ, pair.system.Reach (fun _ _ => True) σ ∧ ∃ f ∈ σ.wire, f.cause = (0, .client 0) ∧
      (pair.receive σ f (answering [])).unix =
        [.toClient (some (.client 1)) ⟨65 :: List.replicate 31 0, ip 1, 57575⟩] :=
  ⟨after pair pairClients, reach_after (by decide +kernel) fun _ _ => trivial, by decide +kernel⟩

end Network

end Odr
