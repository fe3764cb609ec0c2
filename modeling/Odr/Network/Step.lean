/-
# The network as a transition system

A state of the network is the state of every daemon, the list of frame copies in flight and
the clock.  A step is a client's request at some node, the delivery of some copy in flight,
the loss of one, or the passage of time.  Deliveries pick any copy, so that every order of
arrival is a run; a failed `sendto` is a copy that is lost, so the sends themselves succeed.
A daemon that `main` ends after an error is one that receives nothing more: its copies are
lost and no client asks it.
-/
import Odr.Lib.Transition
import Odr.Network.Topology

namespace Odr

/-- The state of a daemon when `main` enters its loop.  Its local `source_packet` holds
whatever the stack held. -/
structure Node.Initial (s : Node) : Prop where
  rtbl : s.rtbl = []
  latestRreq : ∀ key, s.latestRreq key = 0
  runningBroadcastNo : s.runningBroadcastNo = 1
  forcedDiscovery : s.forcedDiscovery = 0
  routeDiscovered : s.routeDiscovered = 0
  msg : s.msg = List.replicate 32 0
  serverTimeReply : s.serverTimeReply = List.replicate 32 0
  alClientAddr : s.alClientAddr = none

/-- The state of the network. -/
structure Net (k : ℕ) where
  node : Fin k → Node
  /-- The frame copies in flight. -/
  wire : List (Transit k)
  clock : ℤ

/-- Every daemon has just started and nothing is in flight. -/
structure Net.Initial {k : ℕ} (σ : Net k) : Prop where
  node : ∀ n, (σ.node n).Initial
  wire : σ.wire = []

/-- The steps of the network. -/
inductive Label (k : ℕ)
  /-- A client with the address `client` sends `req` to the daemon of node `n`. -/
  | request (n : Fin k) (client : UnAddr) (req : OdrReq)
  /-- The `i`-th copy in flight is delivered; `io` says how the Unix socket behaves. -/
  | deliver (i : ℕ) (io : UnixIo)
  /-- The `i`-th copy in flight is lost. -/
  | lose (i : ℕ)
  /-- Time passes. -/
  | tick (d : ℕ)

namespace Network

variable {k : ℕ} (nw : Network k)

/-- What the daemon of `n` does with a request. -/
def request (σ : Net k) (n : Fin k) (client : UnAddr) (req : OdrReq) : Outcome :=
  mainRequest nw.rs (nw.host n) (fun _ => 1) (σ.node n) client req

/-- What the daemon of the receiving node does with a frame. -/
def receive (σ : Net k) (f : Transit k) (io : UnixIo) : Outcome :=
  processPack nw.rs (nw.host f.dst) (fun _ => 1) io σ.clock (σ.node f.dst) f.pack f.hwSrc
    f.ifindex

/-- The step function of the network. -/
def step (σ : Net k) : Label k → Option (Net k)
  | .request n client req =>
      let out := nw.request σ n client req
      some { σ with
        node := Function.update σ.node n out.node
        wire := σ.wire ++ nw.transmit (n, client) out.sent }
  | .deliver i io =>
      (σ.wire[i]?).map fun f =>
        let out := nw.receive σ f io
        { σ with
          node := Function.update σ.node f.dst out.node
          wire := σ.wire.eraseIdx i ++ nw.transmit f.cause out.sent }
  | .lose i => (σ.wire[i]?).map fun _ => { σ with wire := σ.wire.eraseIdx i }
  | .tick d => some { σ with clock := σ.clock + d }

/-- The network as a transition system. -/
def system : Transition.System (Net k) (Label k) where
  init := Net.Initial
  step := nw.step

/-- The steps of the network, one constructor for each label. -/
inductive Steps (σ : Net k) : Label k → Net k → Prop
  | request (n : Fin k) (client : UnAddr) (req : OdrReq) :
      Steps σ (.request n client req)
        { σ with
          node := Function.update σ.node n (nw.request σ n client req).node
          wire := σ.wire ++ nw.transmit (n, client) (nw.request σ n client req).sent }
  | deliver (i : ℕ) (io : UnixIo) (f : Transit k) (hf : σ.wire[i]? = some f) :
      Steps σ (.deliver i io)
        { σ with
          node := Function.update σ.node f.dst (nw.receive σ f io).node
          wire := σ.wire.eraseIdx i ++ nw.transmit f.cause (nw.receive σ f io).sent }
  | lose (i : ℕ) (f : Transit k) (hf : σ.wire[i]? = some f) :
      Steps σ (.lose i) { σ with wire := σ.wire.eraseIdx i }
  | tick (d : ℕ) : Steps σ (.tick d) { σ with clock := σ.clock + d }

variable {nw}

lemma steps_of_step {σ σ' : Net k} {l : Label k} (h : nw.system.step σ l = some σ') :
    nw.Steps σ l σ' := by
  cases l with
  | request n client req =>
    obtain rfl := Option.some_injective _ h
    exact .request n client req
  | deliver i io =>
    obtain ⟨f, hf, rfl⟩ := Option.map_eq_some_iff.mp h
    exact .deliver i io f hf
  | lose i =>
    obtain ⟨f, hf, rfl⟩ := Option.map_eq_some_iff.mp h
    exact .lose i f hf
  | tick d =>
    obtain rfl := Option.some_injective _ h
    exact .tick d

/-! ## What a step does to one node and to the wire -/

/-- The ways in which the state of the node `m` becomes `s'`. -/
inductive NodeStep (nw : Network k) (σ : Net k) (l : Label k) (m : Fin k) (s' : Node) : Prop
  | same (hl : ∀ client req, l ≠ .request m client req) (h : s' = σ.node m)
  | request (client : UnAddr) (req : OdrReq) (hl : l = .request m client req)
      (h : s' = (nw.request σ m client req).node)
  | deliver (i : ℕ) (io : UnixIo) (f : Transit k) (hl : l = .deliver i io)
      (hf : σ.wire[i]? = some f) (hm : m = f.dst) (h : s' = (nw.receive σ f io).node)

/-- The ways in which a copy comes to be in flight. -/
inductive WireStep (nw : Network k) (σ : Net k) (l : Label k) (t : Transit k) : Prop
  | old (h : t ∈ σ.wire)
  | request (n : Fin k) (client : UnAddr) (req : OdrReq) (hl : l = .request n client req)
      (h : t ∈ nw.transmit (n, client) (nw.request σ n client req).sent)
  | deliver (i : ℕ) (io : UnixIo) (f : Transit k) (hl : l = .deliver i io)
      (hf : σ.wire[i]? = some f) (h : t ∈ nw.transmit f.cause (nw.receive σ f io).sent)

lemma Steps.node {σ σ' : Net k} {l : Label k} (hs : nw.Steps σ l σ') (m : Fin k) :
    nw.NodeStep σ l m (σ'.node m) := by
  cases hs with
  | request n client req =>
    rcases eq_or_ne m n with rfl | hm
    · exact .request client req rfl (Function.update_self ..)
    · refine .same (fun client req h => ?_) (Function.update_of_ne hm ..)
      cases h
      exact hm rfl
  | deliver i io f hf =>
    rcases eq_or_ne m f.dst with rfl | hm
    · exact .deliver i io f rfl hf rfl (Function.update_self ..)
    · exact .same (by simp) (Function.update_of_ne hm ..)
  | lose i f hf => exact .same (by simp) rfl
  | tick d => exact .same (by simp) rfl

lemma Steps.node_dst {σ σ' : Net k} {i : ℕ} {io : UnixIo} (hs : nw.Steps σ (.deliver i io) σ')
    {f : Transit k} (hf : σ.wire[i]? = some f) : σ'.node f.dst = (nw.receive σ f io).node := by
  cases hs with
  | deliver _ _ f' hf' =>
    obtain rfl := Option.some_injective _ (hf'.symm.trans hf)
    exact Function.update_self ..

lemma Steps.node_ne {σ σ' : Net k} {i : ℕ} {io : UnixIo} (hs : nw.Steps σ (.deliver i io) σ')
    {f : Transit k} (hf : σ.wire[i]? = some f) {n : Fin k} (hn : n ≠ f.dst) :
    σ'.node n = σ.node n := by
  cases hs with
  | deliver _ _ f' hf' =>
    obtain rfl := Option.some_injective _ (hf'.symm.trans hf)
    exact Function.update_of_ne hn ..

lemma Steps.node_request {σ σ' : Net k} {n : Fin k} {client : UnAddr} {req : OdrReq}
    (hs : nw.Steps σ (.request n client req) σ') :
    σ'.node n = (nw.request σ n client req).node := by
  cases hs with
  | request _ _ _ => exact Function.update_self ..

lemma Steps.node_request_ne {σ σ' : Net k} {n : Fin k} {client : UnAddr} {req : OdrReq}
    (hs : nw.Steps σ (.request n client req) σ') {m : Fin k} (hm : m ≠ n) :
    σ'.node m = σ.node m := by
  cases hs with
  | request _ _ _ => exact Function.update_of_ne hm ..

lemma Steps.wire {σ σ' : Net k} {l : Label k} (hs : nw.Steps σ l σ') {t : Transit k}
    (ht : t ∈ σ'.wire) : nw.WireStep σ l t := by
  cases hs with
  | request n client req =>
    rcases List.mem_append.mp ht with ht | ht
    · exact .old ht
    · exact .request n client req rfl ht
  | deliver i io f hf =>
    rcases List.mem_append.mp ht with ht | ht
    · exact .old (List.mem_of_mem_eraseIdx ht)
    · exact .deliver i io f rfl hf ht
  | lose i f hf => exact .old (List.mem_of_mem_eraseIdx ht)
  | tick d => exact .old ht

/-- A delivery takes one copy off the wire. -/
lemma Steps.eq_or_mem_wire {σ σ' : Net k} {i : ℕ} {io : UnixIo}
    (hs : nw.Steps σ (.deliver i io) σ') {f : Transit k} (hf : σ.wire[i]? = some f)
    {t : Transit k} (ht : t ∈ σ.wire) : t = f ∨ t ∈ σ'.wire := by
  cases hs with
  | deliver _ _ f' hf' =>
    obtain ⟨j, hj⟩ := List.mem_iff_getElem?.mp ht
    rcases eq_or_ne j i with rfl | hne
    · exact Or.inl (Option.some_injective _ (hj.symm.trans hf))
    · exact Or.inr (List.mem_append_left _ (List.mem_eraseIdx_iff_getElem?.mpr ⟨j, hne, hj⟩))

/-- What a node sends in answer to a packet is on the wire. -/
lemma Steps.mem_wire_of_sent {σ σ' : Net k} {i : ℕ} {io : UnixIo}
    (hs : nw.Steps σ (.deliver i io) σ') {f : Transit k} (hf : σ.wire[i]? = some f)
    {t : Transit k} (ht : t ∈ nw.transmit f.cause (nw.receive σ f io).sent) : t ∈ σ'.wire := by
  cases hs with
  | deliver _ _ f' hf' =>
    obtain rfl := Option.some_injective _ (hf'.symm.trans hf)
    exact List.mem_append_right _ ht

lemma mem_wire_of_getElem {σ : Net k} {i : ℕ} {f : Transit k} (h : σ.wire[i]? = some f) :
    f ∈ σ.wire := List.mem_of_getElem? h

end Network

end Odr
