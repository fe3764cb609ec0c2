/-
# The Unix socket of one machine

A daemon has one Unix socket, on which the clients of its machine send requests and the time
server sends its answers.  `main` reads it between two packets, and `process_pack` reads it
once more while it handles a DATA packet that has reached its destination: it asks the server
and takes the first datagram that comes within three seconds, whoever sent it.

The machine is a transition system of its own.  Datagrams arrive in any order relative to the
packets; the server sends one answer to each request that it has not answered, at any time.
-/
import Odr.Lib.Transition
import Odr.Network.Lab

namespace Odr

open Lab

/-- A datagram on the daemon's socket. -/
structure Datagram where
  sender : UnAddr
  data : Bytes
deriving DecidableEq

/-- A 32 bit `int` from its bytes, the lowest first. -/
def intOfBytes (b : Bytes) : ℤ :=
  Int.bmod (b.foldr (fun c acc => (c.toNat : ℤ) + 256 * acc) 0) (2 ^ 32)

/-- The `struct odr_req` that `main` reads into a buffer that `malloc` has filled with
`junk`. -/
def decodeReq (junk data : Bytes) : OdrReq :=
  let b := recvInto junk data 36
  ⟨b.take 32, intOfBytes ((b.drop 32).take 4)⟩

/-- A packet as `main` receives it. -/
structure Reception where
  now : ℤ
  pack : OdrPack
  srcHw : HwAddr
  recvIf : ℤ
deriving DecidableEq

/-- The state of the machine. -/
structure Machine where
  node : Node
  /-- The datagrams on the socket, the oldest first. -/
  queue : List Datagram
  /-- The DATA packet in whose handling the daemon waits for the time server. -/
  waiting : Option Reception
  /-- How many requests the time server has not answered. -/
  asked : ℕ

/-- The steps of the machine. -/
inductive LocalLabel
  /-- A client's datagram arrives. -/
  | client (id : ℕ) (data : Bytes)
  /-- An answer of the time server arrives. -/
  | server (text : Bytes)
  /-- `main` hands a packet to `process_pack`. -/
  | receive (r : Reception)
  /-- `main` reads a datagram. -/
  | read
  /-- `process_pack` reads a datagram. -/
  | answer
  /-- `process_pack` has waited for three seconds. -/
  | timeout

section

variable (rs : Resolver) (h : Host) (res : ℕ → ℤ) (junk : Bytes)

/-- The handling of the packet comes to the receive on the Unix socket. -/
def AsksServer (p : OdrPack) : Prop :=
  p.WithinMaxh ∧ p.type = .data ∧ isSelfSrc h p.srcCanIpStr = 0 ∧ isSelfDest h p.destCanIpStr ≠ 0

instance (p : OdrPack) : Decidable (AsksServer h p) := inferInstanceAs (Decidable (_ ∧ _))

/-- The handling of a packet for which the Unix socket gives `answer`. -/
def Machine.handle (m : Machine) (r : Reception) (answer : Option Bytes) : Outcome :=
  processPack rs h res ⟨1, 1, answer⟩ r.now m.node r.pack r.srcHw r.recvIf

/-- The handling of a datagram by `main`. -/
def Machine.serve (m : Machine) (d : Datagram) : Outcome :=
  mainRequest rs h res m.node d.sender (decodeReq junk d.data)

/-- The step function of the machine. -/
def Machine.step (m : Machine) : LocalLabel → Option Machine
  | .client id data => some { m with queue := m.queue ++ [⟨.client id, data⟩] }
  | .server text =>
      if 0 < m.asked then
        some { m with queue := m.queue ++ [⟨.server, text⟩], asked := m.asked - 1 }
      else none
  | .receive r =>
      match m.waiting with
      | some _ => none
      | none =>
          if AsksServer h r.pack then some { m with waiting := some r, asked := m.asked + 1 }
          else some { m with node := (m.handle rs h res r none).node }
  | .read =>
      match m.waiting, m.queue with
      | none, d :: queue => some { m with node := (m.serve rs h res junk d).node, queue := queue }
      | _, _ => none
  | .answer =>
      match m.waiting, m.queue with
      | some r, d :: queue =>
          some { m with
            node := (m.handle rs h res r (some d.data)).node, queue := queue, waiting := none }
      | _, _ => none
  | .timeout =>
      match m.waiting, m.queue with
      | some r, [] => some { m with node := (m.handle rs h res r none).node, waiting := none }
      | _, _ => none

/-- The machine as a transition system. -/
def localSystem : Transition.System Machine LocalLabel where
  init m := m.node.Initial ∧ m.queue = [] ∧ m.waiting = none ∧ m.asked = 0
  step m l := m.step rs h res junk l

end

/-- What is asked of a step: `process_pack` reads an answer of the time server and puts nothing
else into the payload of the DATA packet that it turns round, and `main` reads a request of a
client. -/
structure ReadsRight (rs : Resolver) (h : Host) (res : ℕ → ℤ) (m : Machine) (l : LocalLabel) :
    Prop where
  answer : l = .answer → ∀ r ∈ m.waiting, ∀ d ∈ m.queue.head?, d.sender = .server ∧
    ∀ g ∈ (m.handle rs h res r (some d.data)).sent, g.pack.payload =
      strncpy r.pack.payload (recvInto m.node.serverTimeReply d.data 32) 32
  read : l = .read → ∀ d ∈ m.queue.head?, d.sender ≠ .server

/-- A DATA packet for this machine is taken only while no datagram waits; while the daemon
waits for the time server no client's datagram comes before its answer; and the server's
answer comes while the daemon waits, once. -/
def Timely (h : Host) (m : Machine) : LocalLabel → Prop
  | .client _ _ => m.waiting = none ∨ m.queue ≠ []
  | .server _ => m.waiting ≠ none ∧ m.queue = []
  | .receive r => AsksServer h r.pack → m.queue = []
  | _ => True

/-- The clients' datagrams that have arrived. -/
def arrivals (tr : List (Machine × LocalLabel)) : List Datagram :=
  tr.filterMap fun x => match x.2 with
    | .client id data => some ⟨.client id, data⟩
    | _ => none

/-- The datagrams that `main` has read. -/
def reads (tr : List (Machine × LocalLabel)) : List Datagram :=
  tr.filterMap fun x => match x.2 with
    | .read => x.1.queue.head?
    | _ => none

section

variable (rs : Resolver) (h : Host) (res : ℕ → ℤ) (junk : Bytes) (m : Machine)

/-- The steps of the machine, one constructor for each way to take one. -/
inductive LocalSteps : LocalLabel → Machine → Prop
  | client (id : ℕ) (data : Bytes) :
      LocalSteps (.client id data) { m with queue := m.queue ++ [⟨.client id, data⟩] }
  | server (text : Bytes) (ha : 0 < m.asked) :
      LocalSteps (.server text)
        { m with queue := m.queue ++ [⟨.server, text⟩], asked := m.asked - 1 }
  | ask (r : Reception) (hw : m.waiting = none) (ha : AsksServer h r.pack) :
      LocalSteps (.receive r) { m with waiting := some r, asked := m.asked + 1 }
  | pass (r : Reception) (hw : m.waiting = none) (ha : ¬AsksServer h r.pack) :
      LocalSteps (.receive r) { m with node := (m.handle rs h res r none).node }
  | read (d : Datagram) (queue : List Datagram) (hw : m.waiting = none)
      (hq : m.queue = d :: queue) :
      LocalSteps .read { m with node := (m.serve rs h res junk d).node, queue := queue }
  | answer (r : Reception) (d : Datagram) (queue : List Datagram) (hw : m.waiting = some r)
      (hq : m.queue = d :: queue) :
      LocalSteps .answer
        { m with
          node := (m.handle rs h res r (some d.data)).node, queue := queue, waiting := none }
  | timeout (r : Reception) (hw : m.waiting = some r) (hq : m.queue = []) :
      LocalSteps .timeout { m with node := (m.handle rs h res r none).node, waiting := none }

end

/-- The invariant: between two packets only clients' datagrams wait, and while the daemon waits
for the time server, whom its packet made it ask, the first datagram is the server's answer. -/
structure Orderly (h : Host) (m : Machine) : Prop where
  idle : m.waiting = none → ∀ d ∈ m.queue, d.sender ≠ .server
  wait : ∀ r ∈ m.waiting, AsksServer h r.pack ∧ (m.queue = [] ∨
    ∃ text rest, m.queue = ⟨.server, text⟩ :: rest ∧ ∀ d ∈ rest, d.sender ≠ .server)

section

variable {rs : Resolver} {h : Host} {res : ℕ → ℤ} {junk : Bytes} {m m' : Machine}
  {l : LocalLabel}

lemma localSteps_of_step (hs : m.step rs h res junk l = some m') :
    LocalSteps rs h res junk m l m' := by
  cases l with
  | client id data =>
    obtain rfl := Option.some_injective _ hs
    exact .client id data
  | server text =>
    rw [Machine.step, Option.ite_none_right_eq_some] at hs
    obtain ⟨ha, hs⟩ := hs
    obtain rfl := Option.some_injective _ hs
    exact .server text ha
  | receive r =>
    rcases hw : m.waiting with _ | r'
    · by_cases ha : AsksServer h r.pack
      · simp only [Machine.step, hw, if_pos ha, Option.some.injEq] at hs
        subst hs
        exact .ask r hw ha
      · simp only [Machine.step, hw, if_neg ha, Option.some.injEq] at hs
        rw [← hs, ← hw]
        exact .pass r hw ha
    · simp [Machine.step, hw] at hs
  | read =>
    rcases hw : m.waiting with _ | r
    · rcases hq : m.queue with _ | ⟨d, queue⟩
      · simp [Machine.step, hw, hq] at hs
      · simp only [Machine.step, hw, hq, Option.some.injEq] at hs
        rw [← hs, ← hw]
        exact .read d queue hw hq
    · simp [Machine.step, hw] at hs
  | answer =>
    rcases hw : m.waiting with _ | r
    · simp [Machine.step, hw] at hs
    · rcases hq : m.queue with _ | ⟨d, queue⟩
      · simp [Machine.step, hw, hq] at hs
      · simp only [Machine.step, hw, hq, Option.some.injEq] at hs
        subst hs
        exact .answer r d queue hw hq
  | timeout =>
    rcases hw : m.waiting with _ | r
    · simp [Machine.step, hw] at hs
    · rcases hq : m.queue with _ | ⟨d, queue⟩
      · simp only [Machine.step, hw, hq, Option.some.injEq] at hs
        rw [← hs, ← hq]
        exact .timeout r hw hq
      · simp [Machine.step, hw, hq] at hs

/-- The payload of the DATA packet that a destination turns round. -/
lemma Handled.payload {io : UnixIo} {now : ℤ} {s s' : Node} {p : OdrPack} {srcHw : HwAddr}
    {recvIf : ℤ} {fr : List Frame} {ux : List UnixSend}
    (H : Handled rs h io now s p srcHw recvIf s' fr ux) (ha : AsksServer h p) {text : Bytes}
    (hio : io.answer = some text) {g : Frame} (hg : g ∈ fr) :
    g.pack.payload = strncpy p.payload (recvInto s.serverTimeReply text 32) 32 := by
  obtain ⟨hop, hty, hsrc, hself⟩ := ha
  cases H with
  | dataTurn _ _ _ _ text' hio' =>
    obtain rfl := Option.some_injective _ (hio.symm.trans hio')
    rw [pack_of_mem_payloadFrames hg]
    rfl
  | _ => simp_all

lemma payload_of_asksServer {r : Reception} (ha : AsksServer h r.pack) {text : Bytes} {g : Frame}
    (hg : g ∈ (m.handle rs h res r (some text)).sent) :
    g.pack.payload = strncpy r.pack.payload (recvInto m.node.serverTimeReply text 32) 32 :=
  processPack_handled.payload ha rfl hg

/-! ## Runs in which every datagram comes in time -/

lemma Orderly.step (ho : Orderly h m) (hok : Timely h m l)
    (hs : LocalSteps rs h res junk m l m') : Orderly h m' := by
  cases hs with
  | client id data =>
    refine ⟨fun hw d hd => ?_, fun r hr => ?_⟩
    · rcases List.mem_append.mp hd with hd | hd
      · exact ho.idle hw d hd
      · rw [List.mem_singleton.mp hd]
        simp
    · obtain ⟨ha, hq | ⟨text, rest, hq, hrest⟩⟩ := ho.wait r hr
      · -- while the daemon waits, a client only sends after the server's answer has come
        rcases hok with hw | hne
        · rw [Option.mem_def, hw] at hr
          simp at hr
        · exact absurd hq hne
      · refine ⟨ha, Or.inr ⟨text, rest ++ [⟨.client id, data⟩], by simp [hq], fun d hd => ?_⟩⟩
        rcases List.mem_append.mp hd with hd | hd
        · exact hrest d hd
        · rw [List.mem_singleton.mp hd]
          simp
  | server text ha =>
    refine ⟨fun hw => absurd hw hok.1, fun r hr => ⟨(ho.wait r hr).1, Or.inr ?_⟩⟩
    exact ⟨text, [], by simp [hok.2], by simp⟩
  | ask r hw ha =>
    refine ⟨fun h' => by simp at h', fun r' hr' => ?_⟩
    obtain rfl : r = r' := by simpa using hr'
    exact ⟨ha, Or.inl (hok ha)⟩
  | pass r hw ha =>
    refine ⟨ho.idle, fun r' hr' => ?_⟩
    rw [Option.mem_def, hw] at hr'
    simp at hr'
  | read d queue hw hq =>
    refine ⟨fun _ d' hd' => ho.idle hw d' (hq ▸ List.mem_cons_of_mem d hd'), fun r hr => ?_⟩
    rw [Option.mem_def, hw] at hr
    simp at hr
  | answer r d queue hw hq =>
    refine ⟨fun _ d' hd' => ?_, by simp⟩
    -- what is taken is the server's answer, and clients' datagrams are left
    obtain ⟨-, h' | ⟨text, rest, h', hrest⟩⟩ := ho.wait r hw
    · simp [h'] at hq
    · obtain ⟨-, rfl⟩ := List.cons_eq_cons.mp (h'.symm.trans hq)
      exact hrest d' hd'
  | timeout r hw hq =>
    refine ⟨fun _ d hd => ?_, by simp⟩
    simp [hq] at hd

/-- An orderly machine reads the right datagram. -/
lemma Orderly.readsRight (ho : Orderly h m) (hs : LocalSteps rs h res junk m l m') :
    ReadsRight rs h res m l := by
  refine ⟨fun hl r hr d hd => ?_, fun hl d hd => ?_⟩
  · obtain ⟨ha, hq | ⟨text, rest, hq, -⟩⟩ := ho.wait r hr
    · simp [hq] at hd
    · obtain rfl : ⟨.server, text⟩ = d := by simpa [hq] using hd
      exact ⟨rfl, fun g hg => payload_of_asksServer ha hg⟩
  · subst hl
    cases hs with
    | read d' queue hw hq =>
      obtain rfl : d' = d := by simpa [hq] using hd
      exact ho.idle hw d' (by simp [hq])

/-- The clients' datagrams that have arrived are those that `main` has read, in the order of
their arrival, and those that still wait. -/
def Conserved (tr : List (Machine × LocalLabel)) (m : Machine) : Prop :=
  arrivals tr = reads tr ++ m.queue.filter fun d => d.sender ≠ .server

lemma Conserved.step {tr : List (Machine × LocalLabel)} (hc : Conserved tr m)
    (hr : ReadsRight rs h res m l) (hs : LocalSteps rs h res junk m l m') :
    Conserved (tr ++ [(m, l)]) m' := by
  rw [Conserved, arrivals, reads, List.filterMap_append, List.filterMap_append, ← arrivals,
    ← reads, show arrivals tr = _ from hc]
  cases hs with
  | client id data => simp
  | server text ha => simp
  | ask r hw ha => simp
  | pass r hw ha => simp
  | read d queue hw hq =>
    have hd := hr.read rfl d (by simp [hq])
    simp [hq, hd]
  | answer r d queue hw hq =>
    have hd := (hr.answer rfl r hw d (by simp [hq])).1
    simp [hq, hd]
  | timeout r hw hq => simp

/-! ## What a datagram out of time does -/

/-- The machine can go on to read a datagram at the wrong place. -/
def CanMisread (rs : Resolver) (h : Host) (res : ℕ → ℤ) (junk : Bytes) (m : Machine) : Prop :=
  ∃ ls m' l, (localSystem rs h res junk).exec m ls = some m' ∧
    (m'.step rs h res junk l).isSome ∧ ¬ReadsRight rs h res m' l

lemma CanMisread.of_step (hs : m.step rs h res junk l = some m')
    (hm : CanMisread rs h res junk m') : CanMisread rs h res junk m := by
  obtain ⟨ls, m₁, l₁, he, hrest⟩ := hm
  refine ⟨l :: ls, m₁, l₁, ?_, hrest⟩
  rw [Transition.System.exec]
  exact Option.bind_eq_some_iff.mpr ⟨m', hs, he⟩

/-- `main` comes to an answer of the server that waits behind clients' datagrams. -/
lemma canMisread_of_idle (cs rest : List Datagram) (text : Bytes) (hw : m.waiting = none)
    (hq : m.queue = cs ++ ⟨.server, text⟩ :: rest) : CanMisread rs h res junk m := by
  induction cs generalizing m with
  | nil =>
    refine ⟨[], m, .read, rfl, ?_, fun hr => ?_⟩
    · simp [Machine.step, hw, hq]
    · exact hr.read rfl ⟨.server, text⟩ (by simp [hq]) rfl
  | cons d cs ih =>
    have hs : m.step rs h res junk .read = some { m with
        node := (m.serve rs h res junk d).node, queue := cs ++ ⟨.server, text⟩ :: rest } := by
      simp [Machine.step, hw, hq]
    exact .of_step hs (ih hw rfl)

/-- `process_pack` comes to a client's datagram. -/
lemma canMisread_of_waiting {r : Reception} (d : Datagram) (rest : List Datagram)
    (hw : m.waiting = some r) (hq : m.queue = d :: rest) (hd : d.sender ≠ .server) :
    CanMisread rs h res junk m := by
  refine ⟨[], m, .answer, rfl, ?_, fun hr => ?_⟩
  · simp [Machine.step, hw, hq]
  · exact hd (hr.answer rfl r hw d (by simp [hq])).1

/-- After an untimely step of an orderly machine a datagram can be read at the wrong place. -/
lemma Orderly.canMisread (ho : Orderly h m) (hs : LocalSteps rs h res junk m l m')
    (hok : ¬Timely h m l) : CanMisread rs h res junk m' := by
  cases hs with
  | client id data =>
    obtain ⟨hw, hq⟩ := not_or.mp hok
    obtain ⟨r, hr⟩ := Option.ne_none_iff_exists'.mp hw
    exact canMisread_of_waiting ⟨.client id, data⟩ [] hr (by simp [not_not.mp hq]) (by simp)
  | server text ha =>
    rcases hw : m.waiting with _ | r
    · exact canMisread_of_idle m.queue [] text rfl rfl
    · -- the daemon takes the first answer and the second one waits
      have hq : m.queue ≠ [] := fun hq => hok ⟨by simp [hw], hq⟩
      obtain ⟨-, hq' | ⟨text', rest, hq', -⟩⟩ := ho.wait r hw
      · exact absurd hq' hq
      have hs : Machine.step rs h res junk
          ⟨m.node, m.queue ++ [⟨.server, text⟩], some r, m.asked - 1⟩ .answer
          = some ⟨(m.handle rs h res r (some text')).node, rest ++ [⟨.server, text⟩], none,
            m.asked - 1⟩ := by
        simp [Machine.step, hq', Machine.handle]
      exact .of_step hs (canMisread_of_idle rest [] text rfl rfl)
  | ask r hw ha =>
    have hq : m.queue ≠ [] := fun hq => hok fun _ => hq
    obtain ⟨d, rest, hq⟩ := List.exists_cons_of_ne_nil hq
    exact canMisread_of_waiting d rest rfl hq (ho.idle hw d (by simp [hq]))
  | pass r hw ha => exact absurd (fun h' => absurd h' ha) hok
  | read d queue hw hq => exact absurd trivial hok
  | answer r d queue hw hq => exact absurd trivial hok
  | timeout r hw hq => exact absurd trivial hok

/-- **Local datagrams are told apart when they come in time.** In every run in which each
datagram is timely, `process_pack` only reads answers of the time server and `main` only
requests of clients, and `main` reads the clients' requests in their order, all but those that
still wait.  After the first datagram that is not timely, one can be read at the wrong
place. -/
theorem datagrams_not_confused {tr : List (Machine × LocalLabel)}
    (hr : (localSystem rs h res junk).Run (Timely h) tr m) :
    (∀ x ∈ tr, ReadsRight rs h res x.1 x.2) ∧
      arrivals tr = reads tr ++ (m.queue.filter fun d => d.sender ≠ .server) ∧
      ∀ l m', m.step rs h res junk l = some m' → ¬Timely h m l →
        CanMisread rs h res junk m' := by
  have key : Orderly h m ∧ Conserved tr m ∧ ∀ x ∈ tr, ReadsRight rs h res x.1 x.2 := by
    refine hr.invariant (I := fun tr m => Orderly h m ∧ Conserved tr m ∧
      ∀ x ∈ tr, ReadsRight rs h res x.1 x.2) ?_ ?_
    · rintro m ⟨-, hq, hw, -⟩
      refine ⟨⟨fun _ d hd => ?_, fun r hr => ?_⟩, ?_, by simp⟩
      · simp [hq] at hd
      · simp [hw] at hr
      · simp [Conserved, arrivals, reads, hq]
    · rintro tr m l m' - ⟨ho, hc, hall⟩ hok hs
      have hs := localSteps_of_step hs
      have hread := ho.readsRight hs
      refine ⟨ho.step hok hs, hc.step hread hs, fun x hx => ?_⟩
      rcases List.mem_append.mp hx with hx | hx
      · exact hall x hx
      · obtain rfl := List.mem_singleton.mp hx
        exact hread
  exact ⟨key.2.2, key.2.1, fun l m' hs hok => key.1.canMisread (localSteps_of_step hs) hok⟩

end

/-! ## The second machine of a pair -/

namespace Lab

/-- The second machine of a pair. -/
def machineSystem : Transition.System Machine LocalLabel :=
  localSystem resolver (pair.host (Fin.last 1)) (fun _ => 1) []

/-- The second machine when its daemon has just started. -/
def machineStart : Machine := ⟨freshNode, [], none, 0⟩

/-- The state of the machine after a list of steps. -/
def machineAfter (ls : List LocalLabel) : Machine :=
  (machineSystem.exec machineStart ls).getD machineStart

lemma machine_run {ok : Machine → LocalLabel → Prop} {ls : List LocalLabel}
    (h : (machineSystem.exec machineStart ls).isSome)
    (hok : ∀ x ∈ machineSystem.trace machineStart ls, ok x.1 x.2) :
    machineSystem.Run ok (machineSystem.trace machineStart ls) (machineAfter ls) := by
  obtain ⟨m, hm⟩ := Option.isSome_iff_exists.mp h
  have hinit : machineSystem.init machineStart :=
    ⟨⟨rfl, fun _ => rfl, rfl, rfl, rfl, rfl, rfl, rfl⟩, rfl, rfl, rfl⟩
  have hstart : machineSystem.Run ok [] machineStart := .start hinit
  have hrun := Transition.System.run_exec hstart hok hm
  rw [machineAfter, hm]
  simpa using hrun

/-- The RREQ and the DATA packet with which the first machine asks the second for the time. -/
def timeRequest (type : PackType) : Reception :=
  ⟨0, { blankPack with
    type := type, destCanIpStr := ip 1, srcCanIpStr := ip 0, rreq := ⟨1, 1, 0, 0⟩,
    srcDest := 1 }, 1, 2⟩

/-- What a client of the second machine sends to ask the first for the time. -/
def clientData : Bytes := (ask 0).msg ++ List.replicate 28 0

end Lab

instance (h : Host) (m : Machine) (l : LocalLabel) : Decidable (Timely h m l) :=
  match l with
  | .client _ _ => inferInstanceAs (Decidable (_ ∨ _))
  | .server _ => inferInstanceAs (Decidable (_ ∧ _))
  | .receive _ => inferInstanceAs (Decidable (_ → _))
  | .read => .isTrue trivial
  | .answer => .isTrue trivial
  | .timeout => .isTrue trivial

/-- The server answers, and then a client asks. -/
def timelySession : List LocalLabel :=
  [.receive (timeRequest .rreq), .receive (timeRequest .data), .server [65],
    .client 0 clientData, .answer, .read]

theorem datagrams_not_confused_pair :
    (∀ x ∈ machineSystem.trace machineStart timelySession,
      ReadsRight resolver (pair.host 1) (fun _ => 1) x.1 x.2) ∧
      reads (machineSystem.trace machineStart timelySession) = [⟨.client 0, clientData⟩] :=
  ⟨(datagrams_not_confused (machine_run (by decide +kernel) (by decide +kernel))).1,
    by decide +kernel⟩

/-- The client asks before the DATA packet comes. -/
def crossedSession : List LocalLabel :=
  [.receive (timeRequest .rreq), .client 0 clientData, .receive (timeRequest .data)]

/-- The client's request goes back to the first machine as the time. -/
theorem client_text_in_reply :
    ∃ m, machineSystem.Reach (fun _ _ => True) m ∧ (machineSystem.step m .answer).isSome ∧
      ¬ReadsRight resolver (pair.host 1) (fun _ => 1) m .answer ∧
      ∃ r ∈ m.waiting, ∃ d ∈ m.queue.head?, d.sender = .client 0 ∧
        ∃ g ∈ (m.handle resolver (pair.host 1) (fun _ => 1) r (some d.data)).sent,
          g.pack.payload = clientData.take 32 := by
  have hw : (machineAfter crossedSession).waiting = some (timeRequest .data) := by decide +kernel
  have hq : (machineAfter crossedSession).queue.head? = some ⟨.client 0, clientData⟩ := by
    decide +kernel
  refine ⟨machineAfter crossedSession, (machine_run (by decide +kernel) fun _ _ => trivial).reach,
    by decide +kernel, fun hr => ?_, timeRequest .data, hw, _, hq, rfl, by decide +kernel⟩
  have hd := (hr.answer rfl _ hw _ hq).1
  simp at hd

end Odr
