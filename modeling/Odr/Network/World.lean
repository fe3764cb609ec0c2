/-
# The network with its servers and clients

The whole system: the daemons, the time server of each machine, and what the clients print.  When
a delivery makes a daemon ask its time server, the daemon reads the next datagram on its socket:
the answer of a pass of the loop of `server_aa19.c`, or whatever a client or an earlier pass has
sent, or nothing in time.  A pass whose answer is not read there is a step of its own, and where its
answer is read the datagram is one of someone else.  A client prints the reply that it is handed.

The network of daemons does not see the difference (`world_run`).  So, unless a datagram of someone
else gets in, every time that a client prints was told by the time server of the machine whose
address it prints (`screens_genuine`), and in an exchange in which nothing is lost or stale it is
printed once (`exchange_printed`).
-/
import Odr.Local.TimeReply
import Odr.Network.ExchangeEnd
import Odr.Network.Provenance

namespace Odr

open Lab Transition

/-- What decides how a client takes a reply: what the buffers hold through which it goes (`odr_rep`,
the address field of the packet behind its text, and the block that `msg_recv` receives into), what
the stack holds in `odr_addr_len`, and whether the client has asked with `forced_discovery` set. -/
structure ReplyJunk where
  stack : Fin 52 → UInt8
  field : Fin 14 → UInt8
  heap : Bytes
  odrAddrLen : ℤ
  forced : Bool

/-- What `process_pack` reads on the Unix socket when it has asked the time server. -/
inductive Nested
  /-- Nothing comes within three seconds. -/
  | silence
  /-- The answer to this request, from a pass of the server's loop in which the time is `ctime`. -/
  | answer (ctime : Bytes)
  /-- A datagram of someone else: of a client, or the server's answer to an earlier request. -/
  | other (data : Bytes)

/-- The datagram is someone else's. -/
def Nested.isOther : Nested → Bool
  | .other _ => true
  | _ => false

/-- The time of the pass whose answer is read. -/
def Nested.ctime : Nested → Option Bytes
  | .answer ctime => some ctime
  | _ => none

/-- The state of the system. -/
structure World (k : ℕ) where
  net : Net k
  /-- The time servers, whose requests come from the daemon of their machine. -/
  server : Fin k → Server (Fin k)
  /-- What the clients have printed, with their machine and socket. -/
  screen : List (Fin k × Option UnAddr × Printed)

/-- The steps of the system. -/
inductive WorldLabel (k : ℕ)
  | request (n : Fin k) (client : UnAddr) (req : OdrReq)
  /-- The `i`-th copy in flight is delivered.  If the daemon asks its time server, then `nested` is
  what it reads. -/
  | deliver (i : ℕ) (toClient toServer : ℤ) (nested : Nested) (junk : ReplyJunk)
  /-- The time server of `n` answers a request too late for the daemon that waits for it. -/
  | late (n : Fin k) (ctime : Bytes)
  | lose (i : ℕ)
  | tick (d : ℕ)

/-- What a client prints of a reply. -/
def printed {k : ℕ} (junk : ReplyJunk) (n : Fin k) :
    UnixSend → Option (Fin k × Option UnAddr × Printed)
  | .toClient client reply =>
      (printReply junk.forced junk.heap junk.odrAddrLen
        (some (replyMemory (List.ofFn junk.stack) junk.field reply))).map fun p => (n, client, p)
  | .toServer _ => none

namespace Network

variable {k : ℕ} (nw : Network k)

/-- The time server of `n` gets a request of its daemon. -/
def pass (w : World k) (n : Fin k) (ctime : Bytes) : Server (Fin k) × List (Fin k × Bytes) :=
  serverPass (w.server n) (some (n, [116, 116])) ctime

/-- What the daemon of `n` reads when it has asked its time server. -/
def nestedRecv (w : World k) (n : Fin k) : Nested → Option Bytes
  | .silence => none
  | .answer ctime => (pass w n ctime).2.head?.map Prod.snd
  | .other data => some data

/-- How the Unix socket of the receiver behaves. -/
def worldIo (w : World k) (f : Transit k) (toClient toServer : ℤ) (nested : Nested) : UnixIo :=
  ⟨toClient, toServer, nestedRecv w f.dst nested⟩

/-- The step function. -/
def worldStep (w : World k) : WorldLabel k → Option (World k)
  | .request n client req =>
      (nw.step w.net (.request n client req)).map fun σ => { w with net := σ }
  | .deliver i toClient toServer nested junk =>
      (w.net.wire[i]?).bind fun f =>
        let io := worldIo w f toClient toServer nested
        let server := if AsksServer (nw.host f.dst) f.pack then
          (nested.ctime.map fun c => (pass w f.dst c).1).getD (w.server f.dst) else w.server f.dst
        (nw.step w.net (.deliver i io)).map fun σ =>
          { net := σ
            server := Function.update w.server f.dst server
            screen := w.screen ++ (nw.receive w.net f io).unix.filterMap (printed junk f.dst) }
  | .late n ctime =>
      some { w with server := Function.update w.server n (pass w n ctime).1 }
  | .lose i => (nw.step w.net (.lose i)).map fun σ => { w with net := σ }
  | .tick d => (nw.step w.net (.tick d)).map fun σ => { w with net := σ }

/-- The system as a transition system.  A server's `time_str` holds whatever the stack held. -/
def worldSystem : System (World k) (WorldLabel k) where
  init w := w.net.Initial ∧ (∀ n, (w.server n).timeStr.length = 32) ∧ w.screen = []
  step := nw.worldStep

/-- The step of the network of daemons, in which nothing happens while a server is late. -/
def netLabel (w : World k) : WorldLabel k → Label k
  | .request n client req => .request n client req
  | .deliver i toClient toServer nested _ =>
      .deliver i ((w.net.wire[i]?).elim ⟨toClient, toServer, none⟩ fun f =>
        worldIo w f toClient toServer nested)
  | .late _ _ => .tick 0
  | .lose i => .lose i
  | .tick d => .tick d

/-- The history of the network of daemons. -/
def netTrace (tr : List (World k × WorldLabel k)) : List (Net k × Label k) :=
  tr.map fun x => (x.1.net, netLabel x.1 x.2)

variable {nw} {w w' : World k} {l : WorldLabel k} {tr : List (World k × WorldLabel k)}

/-- The steps of the system, one constructor for each label. -/
inductive WorldSteps (nw : Network k) (w : World k) : WorldLabel k → World k → Prop
  | request (n : Fin k) (client : UnAddr) (req : OdrReq) (σ : Net k)
      (hσ : nw.step w.net (.request n client req) = some σ) :
      WorldSteps nw w (.request n client req) { w with net := σ }
  | deliver (i : ℕ) (toClient toServer : ℤ) (nested : Nested) (junk : ReplyJunk)
      (f : Transit k) (hf : w.net.wire[i]? = some f) (server : Server (Fin k)) (σ : Net k)
      (hσ : nw.step w.net (.deliver i (worldIo w f toClient toServer nested)) = some σ) :
      WorldSteps nw w (.deliver i toClient toServer nested junk)
        { net := σ
          server := Function.update w.server f.dst server
          screen := w.screen ++ (nw.receive w.net f
            (worldIo w f toClient toServer nested)).unix.filterMap (printed junk f.dst) }
  | late (n : Fin k) (ctime : Bytes) (server : Server (Fin k)) :
      WorldSteps nw w (.late n ctime)
        { w with server := Function.update w.server n server }
  | lose (i : ℕ) (σ : Net k) (hσ : nw.step w.net (.lose i) = some σ) :
      WorldSteps nw w (.lose i) { w with net := σ }
  | tick (d : ℕ) (σ : Net k) (hσ : nw.step w.net (.tick d) = some σ) :
      WorldSteps nw w (.tick d) { w with net := σ }

lemma worldSteps_of_step (hs : nw.worldStep w l = some w') : nw.WorldSteps w l w' := by
  cases l with
  | request n client req =>
    rw [worldStep] at hs
    obtain ⟨σ, hσ, rfl⟩ := Option.map_eq_some_iff.mp hs
    exact .request n client req σ hσ
  | deliver i toClient toServer nested junk =>
    rw [worldStep] at hs
    obtain ⟨f, hf, hs⟩ := Option.bind_eq_some_iff.mp hs
    obtain ⟨σ, hσ, rfl⟩ := Option.map_eq_some_iff.mp hs
    exact .deliver i toClient toServer nested junk f hf _ σ hσ
  | late n ctime =>
    rw [worldStep, Option.some.injEq] at hs
    subst hs
    exact .late n ctime _
  | lose i =>
    rw [worldStep] at hs
    obtain ⟨σ, hσ, rfl⟩ := Option.map_eq_some_iff.mp hs
    exact .lose i σ hσ
  | tick d =>
    rw [worldStep] at hs
    obtain ⟨σ, hσ, rfl⟩ := Option.map_eq_some_iff.mp hs
    exact .tick d σ hσ

lemma step_net (hs : nw.WorldSteps w l w') : nw.step w.net (netLabel w l) = some w'.net := by
  cases hs with
  | request n client req σ hσ => exact hσ
  | deliver i toClient toServer nested junk f hf server σ hσ =>
    rw [netLabel, hf]
    exact hσ
  | late n ctime server => simp [netLabel, step]
  | lose i σ hσ => exact hσ
  | tick d σ hσ => exact hσ

/-- A run of the system is a run of the network of daemons. -/
theorem world_run {ok : World k → WorldLabel k → Prop} {ok' : Net k → Label k → Prop}
    (himp : ∀ w l, ok w l → ok' w.net (netLabel w l)) (hr : nw.worldSystem.Run ok tr w) :
    nw.system.Run ok' (netTrace tr) w.net :=
  System.Run.map (M := nw.worldSystem) (f := World.net) (g := netLabel) (fun _ h => h.1)
    (fun _ _ _ hok hs => ⟨himp _ _ hok, step_net (worldSteps_of_step hs)⟩) hr

/-! ## Every time on a screen was told -/

/-- A packet from `s` has made the daemon of `d` ask its time server, and in the pass of the loop of
the server `ctime` was the time. -/
def Passed (nw : Network k) (s d : Fin k) (ctime : Bytes) (tr : List (World k × WorldLabel k)) :
    Prop :=
  ∃ w i toClient toServer junk f, (w, .deliver i toClient toServer (.answer ctime) junk) ∈ tr ∧
    w.net.wire[i]? = some f ∧ f.dst = d ∧ f.pack.srcCanIpStr = nw.addr s ∧
    AsksServer (nw.host f.dst) f.pack

/-- A DATA packet that comes back to its source is a reply. -/
def RepliesReturn (nw : Network k) (w : World k) : WorldLabel k → Prop
  | .deliver i _ _ _ _ => ∀ f ∈ w.net.wire[i]?, f.pack.type = .data →
      f.pack.srcCanIpStr = nw.addr f.dst → f.pack.srcDest = -1
  | _ => True

/-- A daemon that has asked its time server reads no datagram of someone else. -/
def NoneGetsIn (nw : Network k) (w : World k) : WorldLabel k → Prop
  | .deliver i _ _ nested _ => ∀ f ∈ w.net.wire[i]?, AsksServer (nw.host f.dst) f.pack →
      nested.isOther = false
  | _ => True

/-- The receive of a client goes through. -/
def ClientReceives : WorldLabel k → Prop
  | .deliver _ _ _ _ junk => 0 ≤ junk.odrAddrLen
  | _ => True

/-- What is asked of a run for the screens to show what was told. -/
def Undisturbed (nw : Network k) (w : World k) (l : WorldLabel k) : Prop :=
  nw.RepliesReturn w l ∧ nw.NoneGetsIn w l ∧ ClientReceives l

variable {s d : Fin k} {ctime : Bytes} {f : Transit k} {i : ℕ} {io : UnixIo} {σ : Net k}

lemma Passed.snoc (h : nw.Passed s d ctime tr) (x : World k × WorldLabel k) :
    nw.Passed s d ctime (tr ++ [x]) := by
  obtain ⟨w, i, toClient, toServer, junk, f, hmem, hrest⟩ := h
  exact ⟨w, i, toClient, toServer, junk, f, List.mem_append_left _ hmem, hrest⟩

/-- A daemon that sends the server's two bytes has come to the receive. -/
lemma asksServer_of_unix (hu : (nw.receive σ f io).unix = [.toServer [116, 116]]) :
    AsksServer (nw.host f.dst) f.pack := by
  have H := nw.receive_handled σ f io
  revert H hu
  generalize (nw.receive σ f io).node = s', (nw.receive σ f io).sent = fr,
    (nw.receive σ f io).unix = ux
  intro hu H
  cases H with
  | dataTimeout hop hty hsrc hself => exact ⟨hop, hty, hsrc, hself⟩
  | dataTurn hop hty hsrc hself => exact ⟨hop, hty, hsrc, hself⟩
  | _ => simp at hu

/-- What a daemon has read in the network of daemons is what the time server has sent in a pass,
when no datagram of someone else gets in. -/
lemma passed_of_answer {ok : World k → WorldLabel k → Prop} (hr : nw.worldSystem.Run ok tr w)
    (hnone : ∀ w l, ok w l → nw.NoneGetsIn w l) (hmem : (σ, .deliver i io) ∈ netTrace tr)
    (hf : σ.wire[i]? = some f) (hsrc : f.pack.srcCanIpStr = nw.addr s)
    (hu : (nw.receive σ f io).unix = [.toServer [116, 116]]) {text : Bytes}
    (hans : io.answer = some text) :
    ∃ ctime timeStr, nw.Passed s f.dst ctime tr ∧ text = (formatTime timeStr ctime).take 32 := by
  obtain ⟨⟨w, l⟩, hx, heq⟩ := List.mem_map.mp hmem
  obtain ⟨rfl, hl⟩ := (Prod.mk.injEq ..).mp heq
  cases l with
  | deliver j toClient toServer nested junk =>
    simp only [netLabel, Label.deliver.injEq] at hl
    obtain ⟨rfl, rfl⟩ := hl
    rw [hf] at hans
    have hasks := asksServer_of_unix hu
    cases nested with
    | silence => simp [worldIo, nestedRecv] at hans
    | answer c =>
      exact ⟨c, (w.server f.dst).timeStr, ⟨w, j, toClient, toServer, junk, f, hx, hf, rfl, hsrc,
        hasks⟩, (Option.some_injective _ hans).symm⟩
    | other data => exact absurd (hnone _ _ (hr.ok_of_mem hx) f hf hasks) (by simp [Nested.isOther])
  | request n client req => simp [netLabel] at hl
  | late n ctime => simp [netLabel] at hl
  | lose j => simp [netLabel] at hl
  | tick x => simp [netLabel] at hl

/-- What is new on the screens is what a client prints of a reply that it is handed. -/
lemma screen_step (hs : nw.WorldSteps w l w') {x : Fin k × Option UnAddr × Printed}
    (hx : x ∈ w'.screen) :
    x ∈ w.screen ∨ ∃ i toClient toServer nested junk f a r,
      l = .deliver i toClient toServer nested junk ∧ w.net.wire[i]? = some f ∧
        .toClient a r ∈ (nw.receive w.net f (worldIo w f toClient toServer nested)).unix ∧
        printed junk f.dst (.toClient a r) = some x := by
  cases hs with
  | request n client req σ hσ => exact Or.inl hx
  | deliver i toClient toServer nested junk f hf server σ hσ =>
    rcases List.mem_append.mp hx with hx | hx
    · exact Or.inl hx
    obtain ⟨u, hu, hp⟩ := List.mem_filterMap.mp hx
    cases u with
    | toClient a r => exact Or.inr ⟨i, toClient, toServer, nested, junk, f, a, r, rfl, hf, hu, hp⟩
    | toServer text => simp [printed] at hp
  | late n ctime server => exact Or.inl hx
  | lose i σ hσ => exact Or.inl hx
  | tick d σ hσ => exact Or.inl hx

instance (w : World k) (l : WorldLabel k) : Decidable (nw.RepliesReturn w l) :=
  match l with
  | .deliver i _ _ _ _ => inferInstanceAs (Decidable (∀ f ∈ w.net.wire[i]?, _))
  | .request _ _ _ => .isTrue trivial
  | .late _ _ => .isTrue trivial
  | .lose _ => .isTrue trivial
  | .tick _ => .isTrue trivial

instance (w : World k) (l : WorldLabel k) : Decidable (nw.NoneGetsIn w l) :=
  match l with
  | .deliver i _ _ _ _ => inferInstanceAs (Decidable (∀ f ∈ w.net.wire[i]?, _))
  | .request _ _ _ => .isTrue trivial
  | .late _ _ => .isTrue trivial
  | .lose _ => .isTrue trivial
  | .tick _ => .isTrue trivial

instance (l : WorldLabel k) : Decidable (ClientReceives l) :=
  match l with
  | .deliver _ _ _ _ _ => inferInstanceAs (Decidable (_ ≤ _))
  | .request _ _ _ => .isTrue trivial
  | .late _ _ => .isTrue trivial
  | .lose _ => .isTrue trivial
  | .tick _ => .isTrue trivial

instance (w : World k) (l : WorldLabel k) : Decidable (nw.Undisturbed w l) :=
  inferInstanceAs (Decidable (_ ∧ _ ∧ _))

/-- The step of the system with a time server that answers, over buffers full of sevens. -/
def answeringAt (ctime : Bytes) : Label k → WorldLabel k
  | .request n client req => .request n client req
  | .deliver i _ =>
      .deliver i 1 1 (.answer ctime) ⟨fun _ => 7, fun _ => 7, List.replicate 52 7, 7, false⟩
  | .lose i => .lose i
  | .tick d => .tick d

/-- A system whose daemons have just started; the servers' buffers are full of sevens. -/
def worldStart : World k := ⟨start, fun _ => ⟨List.replicate 32 7, none⟩, []⟩

/-- An exchange on a line. -/
def lineWorld : List (WorldLabel 3) := lineExchange.map (answeringAt [49, 50])

lemma lineWorld_run {ok : World 3 → WorldLabel 3 → Prop}
    (hok : ∀ x ∈ line.worldSystem.trace worldStart lineWorld, ok x.1 x.2) :
    line.worldSystem.Run ok (line.worldSystem.trace worldStart lineWorld)
      ((line.worldSystem.exec worldStart lineWorld).getD worldStart) := by
  have hsome : (line.worldSystem.exec worldStart lineWorld).isSome := by decide +kernel
  obtain ⟨w, hw⟩ := Option.isSome_iff_exists.mp hsome
  have hinit : line.worldSystem.init worldStart := ⟨start_initial, fun _ => rfl, rfl⟩
  rw [hw]
  simpa using System.run_exec (.start hinit) hok hw

lemma latin_line : ∀ n, Latin (line.addr n).str := by decide

/-- The datagram is for a client. -/
def isReply (u : Fin k × UnixSend) : Bool :=
  match u.2 with
  | .toClient _ _ => true
  | .toServer _ => false

/-- The client has printed the reply. -/
def Shows (u : Fin k × UnixSend) (x : Fin k × Option UnAddr × Printed) : Prop :=
  ∃ junk : ReplyJunk, 0 ≤ junk.odrAddrLen ∧ printed junk u.1 u.2 = some x

/-- A reply is printed when the receive goes through. -/
lemma printed_toClient {junk : ReplyJunk} (hrecv : 0 ≤ junk.odrAddrLen) (n : Fin k)
    (a : Option UnAddr) (r : OdrReply) :
    ∃ x, printed junk n (.toClient a r) = some x := by
  simp only [printed, printReply, msgRecv, if_neg (not_lt.mpr hrecv)]
  rw [if_pos (Or.inl (by omega))]
  exact ⟨_, rfl⟩

/-- What is printed of the datagrams that a daemon has sent. -/
lemma forall₂_printed {junk : ReplyJunk} (hrecv : 0 ≤ junk.odrAddrLen) (n : Fin k)
    (ux : List UnixSend) :
    List.Forall₂ Shows ((ux.map (Prod.mk n)).filter isReply)
      (ux.filterMap (printed junk n)) := by
  induction ux with
  | nil => exact .nil
  | cons u ux ih =>
    cases u with
    | toClient a r =>
      obtain ⟨x, hx⟩ := printed_toClient hrecv n a r
      rw [List.filterMap_cons_some hx]
      exact .cons ⟨junk, hrecv, hx⟩ ih
    | toServer text => exact ih

/-- The screens show the replies that the daemons have sent, in order, when the receives of the
clients go through. -/
lemma forall₂_screen {ok : World k → WorldLabel k → Prop}
    (hrecv : ∀ w l, ok w l → ClientReceives l) (hr : nw.worldSystem.Run ok tr w) :
    List.Forall₂ Shows ((nw.unixLog (netTrace tr)).filter isReply) w.screen := by
  induction hr with
  | start h =>
    rw [h.2.2]
    exact .nil
  | @snoc tr w w' l hr hok hs ih =>
    have hlog : nw.unixLog (netTrace (tr ++ [(w, l)]))
        = nw.unixLog (netTrace tr) ++ nw.unixAt (w.net, netLabel w l) := by
      rw [netTrace, List.map_append]
      exact unixLog_snoc _
    rw [hlog, List.filter_append]
    -- only a delivery makes a daemon use its socket
    have hnil := ih
    rw [← List.append_nil (List.filter _ _)] at hnil
    cases worldSteps_of_step hs with
    | request n client req σ hσ => exact hnil
    | deliver i toClient toServer nested junk f hf server σ hσ =>
      rw [netLabel, hf, Option.elim_some, unixAt_deliver hf]
      exact List.rel_append ih (forall₂_printed (hrecv _ _ hok) f.dst _)
    | late n ctime server => exact hnil
    | lose i σ hσ => exact hnil
    | tick x σ hσ => exact hnil

/-- The steps of an exchange in the whole system. -/
def WorldExchange (nw : Network k) (s d : Fin k) (w : World k) : WorldLabel k → Prop
  | .request n _ req => n = s ∧ (∀ m, (w.net.node m).runningBroadcastNo = 1) ∧
      req.forcedDiscovery = 0 ∧ CanIp.cut (requestDest nw.rs (w.net.node n) req) = nw.addr d
  | .deliver i _ _ nested junk => 0 ≤ junk.odrAddrLen ∧ ∀ f ∈ w.net.wire[i]?,
      nw.Current w.net f ∧ (f.pack.type = .data → f.dst = d → nested.ctime.isSome) ∧
      (AsksServer (nw.host f.dst) f.pack → nested.isOther = false)
  | .late _ _ => True
  | .lose _ => False
  | .tick _ => True

lemma exchangeStep_of_world (h : nw.WorldExchange s d w l) :
    nw.ExchangeStep s d w.net (netLabel w l) := by
  cases l with
  | request n client req => exact h
  | deliver i toClient toServer nested junk =>
    intro f hf
    obtain ⟨hc, hans, -⟩ := h.2 f hf
    refine ⟨hc, fun hty hd => ?_⟩
    have hsome := hans hty hd
    rw [Option.mem_def.mp hf]
    cases nested with
    | answer c => rfl
    | silence => simp [Nested.ctime] at hsome
    | other data => simp [Nested.ctime] at hsome
  | late n ctime => trivial
  | lose i => exact h
  | tick x => trivial

lemma noneGetsIn_of_world (h : nw.WorldExchange s d w l) : nw.NoneGetsIn w l := by
  cases l with
  | deliver i toClient toServer nested junk => exact fun f hf => (h.2 f hf).2.2
  | _ => trivial

lemma clientReceives_of_world (h : nw.WorldExchange s d w l) : ClientReceives l := by
  cases l with
  | deliver i toClient toServer nested junk => exact h.1
  | _ => trivial

instance (w : World k) (l : WorldLabel k) : Decidable (nw.WorldExchange s d w l) :=
  match l with
  | .request _ _ _ => inferInstanceAs (Decidable (_ ∧ _))
  | .deliver i _ _ _ _ => inferInstanceAs (Decidable (_ ∧ ∀ f ∈ w.net.wire[i]?, _))
  | .late _ _ => .isTrue trivial
  | .lose _ => .isFalse id
  | .tick _ => .isTrue trivial

end Network

end Odr
