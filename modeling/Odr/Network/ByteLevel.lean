/-
# The network of bytes

The network once more, with what is really sent: frames of 146 bytes, each machine with one receive
buffer that is never cleared, the packet handled in place, and the memory of `source_packet` as
`main` fills it in from one request to the next.

`bytes_simulate` says that this network does what the network of packets does, step by step: what
the frames in flight hold are its packets, and no daemon can tell the difference.  What has been
proved of all runs of the one therefore holds of the other.
-/
import Odr.Local.WireFormat
import Odr.Network.OriginHeaders

namespace Odr

open Buffer Lab

/-- A copy of a frame on its way to an interface. -/
structure ByteTransit (k : ℕ) where
  dst : Fin k
  ifindex : ℤ
  data : Bytes
  cause : Fin k × UnAddr

/-- The packet that the frame holds. -/
def ByteTransit.packet {k : ℕ} (t : ByteTransit k) : Transit k :=
  ⟨t.dst, t.ifindex, hwAddrAt t.data 6, packIn t.data, t.cause⟩

/-- The state of the network: what the `main` of each machine keeps, the memory of its
`source_packet` (behind 14 bytes that nothing reads), and the frames in flight. -/
structure ByteNet (k : ℕ) where
  main : Fin k → LinkState
  memory : Fin k → Bytes
  wire : List (ByteTransit k)
  clock : ℤ

/-- The state of the network of packets. -/
def ByteNet.packets {k : ℕ} (β : ByteNet k) : Net k where
  node n := (β.main n).node
  wire := β.wire.map ByteTransit.packet
  clock := β.clock

/-- The steps, with what the memory happens to hold where a request leaves it alone: the buffer for
the datagram, and the strings of the two addresses behind their ends. -/
inductive ByteLabel (k : ℕ)
  | request (n : Fin k) (client : UnAddr) (buffer datagram : Bytes) (junk junk' : Fin 14 → UInt8)
  | deliver (i : ℕ) (io : UnixIo) (junk : RtblRead)
  | lose (i : ℕ)
  | tick (d : ℕ)

/-- The step of the network of packets. -/
def ByteLabel.label {k : ℕ} : ByteLabel k → Label k
  | .request n client buffer datagram _ _ => .request n client (decodeReq buffer datagram)
  | .deliver i io _ => .deliver i io
  | .lose i => .lose i
  | .tick d => .tick d

/-- Every daemon has just started.  Its buffer and its `source_packet` hold anything. -/
structure ByteNet.Initial {k : ℕ} (β : ByteNet k) : Prop where
  node : ∀ n, (β.main n).node.Initial
  buffer : ∀ n, (β.main n).buffer.length = ethPackSize
  memory : ∀ n, (β.memory n).length = ethPackSize
  sourcePacket : ∀ n, (β.main n).node.sourcePacket = packIn (β.memory n)
  wire : β.wire = []

/-- A hop count that the table records. -/
def SmallHop (x : ℤ) : Prop := -2 ^ 31 ≤ x ∧ x ≤ maxh

/-- The memory of a machine holds what its state says, in numbers that fit into an `int`. -/
structure LinkState.InOrder (m : LinkState) (memory : Bytes) : Prop where
  buffer : m.buffer.length = ethPackSize
  memory : EncodesRest memory m.node.sourcePacket
  fits : m.node.sourcePacket.FitsRest
  counter : IsInt m.node.runningBroadcastNo
  hop : ∀ key e, findKey key m.node.rtbl = some e → SmallHop e.hop

namespace Network

variable {k : ℕ} (nw : Network k)

/-- Whether the interface `j` receives the frame. -/
def receivesBytes (data : Bytes) (j : IfInfo) : Bool :=
  nw.link j.sllAddr = nw.link (hwAddrAt data 6) ∧ j.sllAddr ≠ hwAddrAt data 6 ∧
    (hwAddrAt data 0 = broadcastAddr ∨ hwAddrAt data 0 = j.sllAddr)

/-- The copies of a list of frames that the links carry. -/
def transmitBytes (cause : Fin k × UnAddr) (frames : List Bytes) : List (ByteTransit k) :=
  frames.flatMap fun data => (List.finRange k).flatMap fun m =>
    (((nw.ifs m).dedup).filter (nw.receivesBytes data)).map fun j =>
      ⟨m, j.sllIfindex, data, cause⟩

/-- The step function. -/
def byteStep (β : ByteNet k) : ByteLabel k → Option (ByteNet k)
  | .request n client buffer datagram junk junk' =>
      let s := (β.main n).node
      let req := decodeReq buffer datagram
      let out := mainRequest nw.rs (nw.host n) (fun _ => 1) s client req
      let filled := rreqMemory nw.rs (nw.host n) s req junk junk' (β.memory n)
      -- DATA leaves before the packet is made an RREQ
      let sent := if skipDiscovery nw.rs s req then
        dataMemory nw.rs (nw.host n) s req junk junk' (β.memory n) else filled
      some { β with
        main := Function.update β.main n { β.main n with node := out.node }
        memory := Function.update β.memory n filled
        wire := β.wire ++ nw.transmitBytes (n, client)
          (out.sent.map fun g => frameBytes g sent) }
  | .deliver i io junk =>
      (β.wire[i]?).map fun t =>
        let m := β.main t.dst
        let rx : Received := some (t.data, t.ifindex)
        let r := mainLink nw.rs (nw.host t.dst) (fun _ => 1) junk io (fun _ => β.clock) m rx
        { β with
          main := Function.update β.main t.dst r.1
          wire := β.wire.eraseIdx i ++ nw.transmitBytes t.cause
            (r.2.out.sent.map fun g => frameBytes g (storePack (m.bufferAfter rx) g.pack)) }
  | .lose i => (β.wire[i]?).map fun _ => { β with wire := β.wire.eraseIdx i }
  | .tick d => some { β with clock := β.clock + d }

/-- The network of bytes as a transition system. -/
def byteSystem : Transition.System (ByteNet k) (ByteLabel k) where
  init := ByteNet.Initial
  step := nw.byteStep

/-- Addresses are written in one-byte characters. -/
structure LatinAddresses (nw : Network k) : Prop where
  resolved : ∀ text, Latin (nw.rs.sockNtop text)
  addr : ∀ n, Latin (nw.addr n).str

/-- Every machine's memory is in order, and every frame in flight holds a packet. -/
structure Encoded (β : ByteNet k) : Prop where
  main : ∀ n, (β.main n).InOrder (β.memory n)
  wire : ∀ t ∈ β.wire, ∃ q, Encodes t.data q ∧ q.Fits

end Network

/-! ## The packets that a handler sends -/

section

variable {rs : Resolver} {h : Host} {io : UnixIo} {now : ℤ} {s s' : Node} {p : OdrPack}
  {srcHw : HwAddr} {recvIf : ℤ} {fr : List Frame} {ux : List UnixSend}

/-- The table records hop counts that have passed the test against `MAXH`. -/
lemma smallHop_learn (hp : p.FitsRest) (hop : p.WithinMaxh)
    (ht : ∀ key e, findKey key s.rtbl = some e → SmallHop e.hop) (key : ℤ) (e : RtblEntry)
    (he : findKey key (s.learn rs h now p srcHw recvIf).rtbl = some e) : SmallHop e.hop := by
  have h₁ : SmallHop p.rreq.hop := ⟨hp.rreqHop.1, hop.1⟩
  have h₂ : SmallHop p.rrep.hop := ⟨hp.rrepHop.1, hop.2⟩
  rcases findKey_updateRtblEntry_cases _ he with ⟨e₀, ip, he₀, rfl⟩ | ⟨o, ho, -, -, -, -, -, had⟩
  · exact ht key e₀ he₀
  have hoffer : SmallHop o.hop ∧ SmallHop o.staleHop := by
    rw [offer] at ho
    split at ho
    · obtain rfl := Option.some_injective _ ho
      exact ⟨h₁, h₁⟩
    · obtain rfl := Option.some_injective _ ho
      exact ⟨h₂, h₁⟩
    · split at ho
      · obtain rfl := Option.some_injective _ ho
        exact ⟨h₁, h₁⟩
      · split at ho
        · obtain rfl := Option.some_injective _ ho
          exact ⟨h₁, h₁⟩
        · simp at ho
    · simp at ho
  generalize hold : findKey key s.rtbl = old at had
  generalize e.hop = x at had ⊢
  cases had with
  | new => exact hoffer.1
  | better => exact hoffer.1
  | stale e₀ hst =>
    have h₀ := ht key e₀ hold
    exact ⟨le_min h₀.1 hoffer.2.1, (min_le_left _ _).trans h₀.2⟩

lemma runningBroadcastNo_of_handled (H : Handled rs h io now s p srcHw recvIf s' fr ux) :
    s'.runningBroadcastNo = s.runningBroadcastNo := by
  cases H <;> rfl

lemma SmallHop.isInt_add_one {x : ℤ} (hx : SmallHop x) : IsInt (x + 1) := by
  have h₁ := hx.1
  have h₂ := hx.2
  rw [maxh] at h₂
  exact isInt_small (by omega) (by omega)

/-- What a handler leaves of a packet that it sends on. -/
structure Kept (p q : OdrPack) : Prop where
  dest : q.destCanIpStr = p.destCanIpStr
  src : q.srcCanIpStr = p.srcCanIpStr
  id : q.rreq.broadcastId = p.rreq.broadcastId
  force : q.rreq.forceDiscovery = p.rreq.forceDiscovery

/-- A handler sends packets that fit if it is given one. -/
lemma Handled.fits (H : Handled rs h io now s p srcHw recvIf s' fr ux) (hp : p.Fits)
    (ht : ∀ key e, findKey key s.rtbl = some e → SmallHop e.hop) {g : Frame} (hg : g ∈ fr) :
    g.pack.Fits ∧ Kept p g.pack := by
  have h₀ : IsInt 0 := isInt_small (by decide) (by decide)
  have h₁ : IsInt 1 := isInt_small (by decide) (by decide)
  have h₂ : IsInt 2 := isInt_small (by decide) (by decide)
  have h₃ : IsInt (-1) := isInt_small (by decide) (by decide)
  have hpay : ∀ text : Bytes, (strncpy p.payload text 32).length = 64 := by
    intro text
    rw [length_strncpy (by rw [hp.payload]; decide), hp.payload]
  have hrreq : p.WithinMaxh → IsInt (p.rreq.hop + 1) := fun hop =>
    SmallHop.isInt_add_one ⟨hp.rreqHop.1, hop.1⟩
  cases H with
  | rreqDest =>
    rw [pack_of_mem_llFrames hg]
    exact ⟨⟨{ hp.toFitsRest with
      typeInt := h₁, type := rfl, rrepHop := h₁, rrepId := h₁, rrepForce := h₀ },
      hp.dest, hp.src⟩, ⟨rfl, rfl, rfl, rfl⟩⟩
  | rreqFlood hop =>
    rw [pack_of_mem_bcastFrames hg]
    exact ⟨⟨{ hp.toFitsRest with rreqHop := hrreq hop }, hp.dest, hp.src⟩, ⟨rfl, rfl, rfl, rfl⟩⟩
  | rreqAnswer hop hty _ _ _ _ e he =>
    have he₁ := (smallHop_learn hp.toFitsRest hop ht _ e he).isInt_add_one
    have hle := hop.1
    rw [maxh] at hle
    have hlow := hp.rreqHop.1
    have hrreq₂ : IsInt (p.rreq.hop + 2) := isInt_small (by omega) (by omega)
    rcases List.mem_append.mp hg with hg | hg
    · rw [pack_of_mem_llFrames hg]
      exact ⟨⟨{ hp.toFitsRest with
        typeInt := h₁, type := rfl, rreqHop := hrreq hop, rrepHop := he₁, rrepId := h₁,
        rrepForce := h₀ }, hp.dest, hp.src⟩, ⟨rfl, rfl, rfl, rfl⟩⟩
    · rw [pack_of_mem_bcastFrames hg]
      exact ⟨⟨{ hp.toFitsRest with
        typeInt := h₀, type := rfl, rreqHop := hrreq₂, rrepSent := h₁, rrepHop := he₁,
        rrepId := h₁, rrepForce := h₀ }, hp.dest, hp.src⟩, ⟨rfl, rfl, rfl, rfl⟩⟩
  | rrepSource =>
    rw [pack_of_mem_payloadFrames hg]
    exact ⟨⟨{ hp.toFitsRest with
      typeInt := h₂, type := rfl, payload := hpay _, srcDest := h₁ }, hp.dest, hp.src⟩,
      ⟨rfl, rfl, rfl, rfl⟩⟩
  | rrepRelay hop =>
    have hrrep : IsInt (p.rrep.hop + 1) := SmallHop.isInt_add_one ⟨hp.rrepHop.1, hop.2⟩
    rw [pack_of_mem_llFrames hg]
    exact ⟨⟨{ hp.toFitsRest with rrepHop := hrrep, rrepForce := h₀ }, hp.dest, hp.src⟩,
      ⟨rfl, rfl, rfl, rfl⟩⟩
  | dataTurn =>
    rw [pack_of_mem_payloadFrames hg]
    exact ⟨⟨{ hp.toFitsRest with payload := hpay _, srcDest := h₃ }, hp.dest, hp.src⟩,
      ⟨rfl, rfl, rfl, rfl⟩⟩
  | dataToServer =>
    rw [pack_of_mem_payloadFrames hg]
    exact ⟨hp, ⟨rfl, rfl, rfl, rfl⟩⟩
  | dataToClient =>
    rw [pack_of_mem_payloadFrames hg]
    exact ⟨hp, ⟨rfl, rfl, rfl, rfl⟩⟩
  | _ => simp at hg

end

namespace Network

variable {k : ℕ} {nw : Network k} {β β' : ByteNet k}

/-! ## The frames in flight -/

/-- The copies of frames that hold packets are the copies of the packets. -/
lemma packet_transmitBytes (nw : Network k) (cause : Fin k × UnAddr) {frames : List Frame}
    {mem : Frame → Bytes} (hmem : ∀ g ∈ frames, Encodes (mem g) g.pack ∧ g.pack.Fits) :
    (nw.transmitBytes cause (frames.map fun g => frameBytes g (mem g))).map ByteTransit.packet
      = nw.transmit cause frames := by
  rw [transmitBytes, transmit, List.flatMap_map, List.map_flatMap]
  refine List.flatMap_congr fun g hg => ?_
  obtain ⟨henc, hfits⟩ := hmem g hg
  rw [List.map_flatMap]
  refine List.flatMap_congr fun m _ => ?_
  have hreceives : nw.receivesBytes (frameBytes g (mem g)) = nw.receives g := by
    funext j
    rw [receivesBytes, receives, hwAddrAt_dest, hwAddrAt_source]
  rw [hreceives, List.map_map]
  refine List.map_congr_left fun j _ => ?_
  rw [Function.comp_apply, ByteTransit.packet, hwAddrAt_source,
    packIn_eq (encodes_frameBytes g henc) hfits]

lemma encodes_of_mem_transmitBytes {cause : Fin k × UnAddr} {frames : List Frame}
    {mem : Frame → Bytes} (hmem : ∀ g ∈ frames, Encodes (mem g) g.pack ∧ g.pack.Fits)
    {t : ByteTransit k}
    (ht : t ∈ nw.transmitBytes cause (frames.map fun g => frameBytes g (mem g))) :
    ∃ q, Encodes t.data q ∧ q.Fits := by
  simp only [transmitBytes, List.mem_flatMap, List.mem_map] at ht
  obtain ⟨data, ⟨g, hg, rfl⟩, m, -, j, -, rfl⟩ := ht
  obtain ⟨henc, hfits⟩ := hmem g hg
  exact ⟨g.pack, encodes_frameBytes g henc, hfits⟩

/-! ## Steps -/

lemma Encoded.initial (h : β.Initial) : Encoded β where
  main n := by
    refine ⟨h.buffer n, ?_, ?_, ?_, fun key e he => ?_⟩
    · rw [h.sourcePacket n]
      exact encodesRest_packIn (h.memory n)
    · rw [h.sourcePacket n]
      exact fitsRest_packIn (h.memory n)
    · rw [(h.node n).runningBroadcastNo]
      exact isInt_small (by decide) (by decide)
    · rw [(h.node n).rtbl, findKey_nil] at he
      simp at he
  wire t ht := by
    rw [h.wire] at ht
    simp at ht

lemma isInt_nextBroadcastNo (n : ℤ) : IsInt (nextBroadcastNo n) := by
  rw [IsInt, nextBroadcastNo]
  simp only [Int.bmod]
  omega

section Request

variable (hL : nw.LatinAddresses) (hE : Encoded β) (n : Fin k) (client : UnAddr) (req : OdrReq)
  (junk junk' : Fin 14 → UInt8)

/-- The memory from which the frames of a request are sent. -/
def requestMemory (nw : Network k) (β : ByteNet k) (n : Fin k) (req : OdrReq)
    (junk junk' : Fin 14 → UInt8) : Bytes :=
  if skipDiscovery nw.rs (β.main n).node req then
    dataMemory nw.rs (nw.host n) (β.main n).node req junk junk' (β.memory n)
  else rreqMemory nw.rs (nw.host n) (β.main n).node req junk junk' (β.memory n)

include hL hE in
/-- It holds the packet that is sent. -/
lemma Encoded.requestMemory {g : Frame}
    (hg : g ∈ (nw.request β.packets n client req).sent) :
    Encodes (nw.requestMemory β n req junk junk') g.pack ∧ g.pack.Fits := by
  have hdest : Latin (requestDest nw.rs (β.main n).node req) := hL.resolved _
  rw [Network.request, mainRequest_sent] at hg
  rw [Network.requestMemory]
  by_cases hskip : skipDiscovery nw.rs (β.main n).node req = true
  · rw [if_pos hskip]
    have hpack := pack_of_mem_payloadFrames ((if_pos hskip) ▸ hg)
    rw [hpack]
    exact ⟨encodes_dataMemory nw.rs (nw.host n) req junk junk' (hE.main n).memory,
      fits_dataPack nw.rs (nw.host n) req (hE.main n).fits (hL.addr n) hdest⟩
  · rw [if_neg hskip]
    have hpack := pack_of_mem_bcastFrames ((if_neg hskip) ▸ hg)
    rw [hpack]
    exact ⟨encodes_rreqMemory nw.rs (nw.host n) req junk junk' (hE.main n).memory,
      fits_rreqPack nw.rs (nw.host n) req (hE.main n).fits (hL.addr n) hdest (hE.main n).counter⟩

end Request

/-- The packets after a machine has changed. -/
lemma packets_update (β : ByteNet k) (n : Fin k) (m : LinkState) (memory : Fin k → Bytes)
    (wire : List (ByteTransit k)) :
    ({ β with main := Function.update β.main n m, memory := memory, wire := wire } :
        ByteNet k).packets
      = { β.packets with
          node := Function.update β.packets.node n m.node
          wire := wire.map ByteTransit.packet } := by
  have hnode : (fun i => (Function.update β.main n m i).node)
      = Function.update (fun i => (β.main i).node) n m.node := by
    funext i
    exact Function.apply_update (fun _ x => LinkState.node x) β.main n m i
  exact (Net.mk.injEq ..).mpr ⟨hnode, rfl, rfl⟩

/-- A machine changes, and so may its memory and the wire. -/
lemma Encoded.update (hE : Encoded β) (n : Fin k) {m : LinkState} {b : Bytes}
    {wire : List (ByteTransit k)} (hm : m.InOrder b)
    (hwire : ∀ t ∈ wire, ∃ q, Encodes t.data q ∧ q.Fits) :
    Encoded { β with
      main := Function.update β.main n m
      memory := Function.update β.memory n b
      wire := wire } where
  main i := by
    rcases eq_or_ne i n with rfl | hne
    · simpa using hm
    · simpa [hne] using hE.main i
  wire := hwire

/-- A request does the same to both networks. -/
lemma Encoded.step_request (hL : nw.LatinAddresses) (hE : Encoded β) {n : Fin k}
    {client : UnAddr} {buffer datagram : Bytes} {junk junk' : Fin 14 → UInt8}
    (hs : nw.byteStep β (.request n client buffer datagram junk junk') = some β') :
    nw.step β.packets (.request n client (decodeReq buffer datagram)) = some β'.packets ∧
      Encoded β' := by
  obtain rfl := Option.some_injective _ hs
  have hmem := fun g hg => hE.requestMemory hL n client (decodeReq buffer datagram) junk junk'
    (g := g) hg
  constructor
  · refine congrArg some ?_
    rw [packets_update, List.map_append]
    have hwire := packet_transmitBytes nw (n, client) hmem
    exact (Net.mk.injEq ..).mpr ⟨rfl, congrArg (β.packets.wire ++ ·) hwire.symm, rfl⟩
  · have henc := encodes_rreqMemory nw.rs (nw.host n) (decodeReq buffer datagram) junk junk'
      (hE.main n).memory
    have hfits := fits_rreqPack nw.rs (nw.host n) (decodeReq buffer datagram) (hE.main n).fits
      (hL.addr n) (hL.resolved _) (hE.main n).counter
    refine hE.update n ⟨(hE.main n).buffer, henc.toEncodesRest, hfits.toFitsRest,
      isInt_nextBroadcastNo _, (hE.main n).hop⟩ fun t ht => ?_
    rcases List.mem_append.mp ht with ht | ht
    · exact hE.wire t ht
    · exact encodes_of_mem_transmitBytes hmem ht

/-- A delivery does the same to both networks. -/
lemma Encoded.step_deliver (hE : Encoded β) {i : ℕ} {io : UnixIo} {junk : RtblRead}
    (hs : nw.byteStep β (.deliver i io junk) = some β') :
    nw.step β.packets (.deliver i io) = some β'.packets ∧ Encoded β' := by
  obtain ⟨t, ht, rfl⟩ := Option.map_eq_some_iff.mp hs
  obtain ⟨p, henc, hfits⟩ := hE.wire t (List.mem_of_getElem? ht)
  -- the frame fills the buffer
  have hbuf : (β.main t.dst).bufferAfter (some (t.data, t.ifindex)) = t.data := by
    rw [LinkState.bufferAfter, recvInto_of_le (hE.main t.dst).buffer henc.length.ge,
      List.take_of_length_le henc.length.le]
  have hpack : packIn t.data = p := packIn_eq henc hfits
  have hout : (processBuffer nw.rs (nw.host t.dst) (fun _ => 1) junk io (fun _ => β.clock)
      (β.main t.dst).node t.data t.ifindex).out = nw.receive β.packets t.packet io := by
    rw [processBuffer, henc.textAt_src hfits, henc.textAt_dest hfits, receive, ByteTransit.packet,
      hpack]
    exact processPackAt_eq junk
  have hwire : β.packets.wire[i]? = some t.packet := by
    rw [ByteNet.packets, List.getElem?_map, ht]
    rfl
  have H := nw.receive_handled β.packets t.packet io
  have hp : t.packet.pack = p := hpack
  have hmem : ∀ g ∈ (nw.receive β.packets t.packet io).sent,
      Encodes (storePack t.data g.pack) g.pack ∧ g.pack.Fits := by
    intro g hg
    obtain ⟨hg, hkept⟩ := H.fits (hp.symm ▸ hfits) (hE.main t.dst).hop hg
    rw [hp] at hkept
    exact ⟨encodes_storePack henc hg.payload hkept.dest hkept.src hkept.id hkept.force, hg⟩
  have hpay : (processBuffer nw.rs (nw.host t.dst) (fun _ => 1) junk io (fun _ => β.clock)
      (β.main t.dst).node t.data t.ifindex).out.pack.payload.length = 64 := by
    have h64 : (packIn t.data).payload.length = 64 := hpack ▸ hfits.payload
    rw [processBuffer, processPackAt]
    split
    · exact h64
    · exact length_payload_packAt h64
  simp only [mainLink, hbuf, LinkState.recvIfAfter]
  rw [hout] at hpay ⊢
  constructor
  · have hdata := packet_transmitBytes nw t.cause hmem
    simp only [Network.step, hwire, Option.map_some]
    have hmap : β.packets.wire.eraseIdx i = (β.wire.eraseIdx i).map ByteTransit.packet :=
      List.eraseIdx_map ..
    have hupd := packets_update β t.dst
      ⟨(nw.receive β.packets t.packet io).node,
        storePack t.data (nw.receive β.packets t.packet io).pack, t.ifindex⟩ β.memory
      (β.wire.eraseIdx i ++ nw.transmitBytes t.cause
        ((nw.receive β.packets t.packet io).sent.map fun g =>
          frameBytes g (storePack t.data g.pack)))
    rw [List.map_append, hdata, ← hmap] at hupd
    exact congrArg some hupd.symm
  · have hm : LinkState.InOrder ⟨(nw.receive β.packets t.packet io).node,
        storePack t.data (nw.receive β.packets t.packet io).pack, t.ifindex⟩ (β.memory t.dst) := by
      have hsrc := sourcePacket_of_handled H
      have hcount := runningBroadcastNo_of_handled H
      refine ⟨length_storePack henc.length hpay, ?_, ?_, ?_, fun key e he => ?_⟩
      · exact hsrc ▸ (hE.main t.dst).memory
      · exact hsrc ▸ (hE.main t.dst).fits
      · exact hcount ▸ (hE.main t.dst).counter
      · rw [rtbl_receive] at he
        split at he
        · next hop =>
          exact smallHop_learn (hp.symm ▸ hfits.toFitsRest) hop (hE.main t.dst).hop key e he
        · exact (hE.main t.dst).hop key e he
    have hwire : ∀ u ∈ β.wire.eraseIdx i ++ nw.transmitBytes t.cause
        ((nw.receive β.packets t.packet io).sent.map fun g =>
          frameBytes g (storePack t.data g.pack)), ∃ q, Encodes u.data q ∧ q.Fits := by
      intro u hu
      rcases List.mem_append.mp hu with hu | hu
      · exact hE.wire u (List.mem_of_mem_eraseIdx hu)
      · exact encodes_of_mem_transmitBytes hmem hu
    have hupd := hE.update t.dst hm hwire
    rwa [Function.update_eq_self] at hupd

/-- **The two networks do the same.** -/
theorem Encoded.step (hL : nw.LatinAddresses) (hE : Encoded β) {l : ByteLabel k}
    (hs : nw.byteStep β l = some β') :
    nw.step β.packets l.label = some β'.packets ∧ Encoded β' := by
  cases l with
  | request n client buffer datagram junk junk' => exact hE.step_request hL hs
  | deliver i io junk => exact hE.step_deliver hs
  | lose i =>
    obtain ⟨t, ht, rfl⟩ := Option.map_eq_some_iff.mp hs
    refine ⟨?_, hE.main, fun t ht => hE.wire t (List.mem_of_mem_eraseIdx ht)⟩
    have hmap : β.packets.wire.eraseIdx i = (β.wire.eraseIdx i).map ByteTransit.packet :=
      List.eraseIdx_map ..
    have hwire : β.packets.wire[i]? = some t.packet := by
      rw [ByteNet.packets, List.getElem?_map, ht]
      rfl
    simp only [ByteLabel.label, Network.step, hwire, Option.map_some, hmap]
    rfl
  | tick d =>
    obtain rfl := Option.some_injective _ hs
    exact ⟨rfl, hE.main, hE.wire⟩

/-- **The network of bytes.** If addresses are written in one-byte characters, every run of the
network of bytes, whatever its buffers and its memory hold at the start, is a run of the network of
packets: with the packets that its frames hold, step by step, and with the same daemons in every
state.  A condition on the steps of the one is a condition on the steps of the other. -/
theorem bytes_simulate (hL : nw.LatinAddresses) {ok : Net k → Label k → Prop}
    {tr : List (ByteNet k × ByteLabel k)} {β : ByteNet k}
    (hr : nw.byteSystem.Run (fun β l => ok β.packets l.label) tr β) :
    nw.system.Run ok (tr.map fun x => (x.1.packets, x.2.label)) β.packets := by
  suffices h : nw.system.Run ok (tr.map fun x => (x.1.packets, x.2.label)) β.packets ∧
      Encoded β from h.1
  refine hr.invariant (I := fun tr β => nw.system.Run ok
    (tr.map fun x => (x.1.packets, x.2.label)) β.packets ∧ Encoded β) (fun β h => ?_)
    fun tr β l β' _ ⟨hrun, hE⟩ hok hs => ?_
  · refine ⟨.start ⟨h.node, ?_⟩, .initial h⟩
    rw [ByteNet.packets, h.wire]
    rfl
  · obtain ⟨hs', hE'⟩ := hE.step hL hs
    rw [List.map_append]
    exact ⟨hrun.snoc hok hs', hE'⟩

/-- Two machines whose memory is full of sevens. -/
def sevens : ByteNet 2 where
  main _ :=
    ⟨{ freshNode with sourcePacket := packIn (List.replicate 146 7) }, List.replicate 146 7, 0⟩
  memory _ := List.replicate 146 7
  wire := []
  clock := 0

/-- The second asks for the time of the first, which answers the RREQ. -/
def sevensAsked : List (ByteLabel 2) :=
  [.request (Fin.last 1) (.client 0) [] (textBytes (ipText 0)) (fun _ => 7) (fun _ => 7),
    .deliver 0 (answering []) ⟨7, 7, 7, 7⟩]

theorem bytes_simulate_sevens :
    pair.system.Run (fun _ _ => True)
      ((pair.byteSystem.trace sevens sevensAsked).map fun x => (x.1.packets, x.2.label))
      ((pair.byteSystem.exec sevens sevensAsked).getD sevens).packets := by
  have hL : pair.LatinAddresses := by
    constructor
    · intro text c hc
      obtain ⟨a, -, rfl⟩ := List.mem_map.mp hc
      have ha := a.toNat_lt
      rw [Char.toNat_ofNat, if_pos (Or.inl (by omega))]
      exact ha
    · decide
  have hinit : sevens.Initial :=
    ⟨fun _ => ⟨rfl, fun _ => rfl, rfl, rfl, rfl, rfl, rfl, rfl⟩, fun _ => rfl, fun _ => rfl,
      fun _ => rfl, rfl⟩
  have hsome : (pair.byteSystem.exec sevens sevensAsked).isSome := by decide +kernel
  obtain ⟨β, hβ⟩ := Option.isSome_iff_exists.mp hsome
  have hrun :
      pair.byteSystem.Run (fun _ _ => True) (pair.byteSystem.trace sevens sevensAsked) β := by
    simpa using Transition.System.run_exec (.start hinit) (fun _ _ => trivial) hβ
  rw [hβ]
  exact bytes_simulate hL hrun

end Network

end Odr
