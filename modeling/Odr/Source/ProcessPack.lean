/-
# The daemon: `process_pack` and the request branch of `main`

`odr_aa19.c` keeps its state in globals; `Node` is the record of those that its two
handlers read or write, together with `main`'s local `source_packet`, which survives from
one request to the next.  `processPack` handles one received packet and `mainRequest` one
datagram of the Unix socket.  Both return the new state, the packet as the handler leaves
it in its buffer, the return value, the frames handed to the link layer and the datagrams
sent on the Unix socket.

A handler reads the clock, the host's name and the results of its own sends and receives.
These are arguments: `now`, `Host`, `res` and `UnixIo`.
-/
import Odr.Source.LinkSend

namespace Odr

/-- `MAXH`. -/
def maxh : ℤ := 15

/-- The machine a daemon runs on. -/
structure Host where
  /-- `if_info_list`, in loop order. -/
  ifInfoList : List IfInfo
  /-- Whether `gethostname` succeeds. -/
  hostnameOk : Bool
  /-- What `is_self_dest` and `is_self_src` find in `self_ip_str`, as `strncmp` reads it. -/
  selfIpStr : CanIp
  /-- What `get_can_ip` returns. -/
  canIp : CanIp
  /-- The staleness parameter `sp`. -/
  sp : ℤ

/-- `is_self_dest`. -/
def isSelfDest (h : Host) (destIpStr : CanIp) : ℤ :=
  if h.hostnameOk then (if h.selfIpStr = destIpStr then 1 else 0) else -1

/-- `is_self_src`, which repeats the code of `is_self_dest`. -/
def isSelfSrc (h : Host) (srcIpStr : CanIp) : ℤ := isSelfDest h srcIpStr

/-- The state of a daemon. -/
structure Node where
  rtbl : Rtbl
  /-- `char latest_rreq[11]`: only the indices from 0 to 10 lie inside the array. -/
  latestRreq : ℤ → Int8
  runningBroadcastNo : ℤ
  forcedDiscovery : ℤ
  routeDiscovered : ℤ
  msg : Bytes
  serverTimeReply : Bytes
  /-- `al_client_addr`, `none` before the first datagram. -/
  alClientAddr : Option UnAddr
  sourcePacket : OdrPack

/-- A datagram that the daemon sends on its Unix socket. -/
inductive UnixSend
  | toClient (addr : Option UnAddr) (reply : OdrReply)
  | toServer (text : Bytes)
deriving DecidableEq, Repr

/-- How the Unix socket behaves while one packet is handled: the results of the two
`sendto` calls, and the datagram that the nested receive gets, `none` when the three seconds
pass without one. -/
structure UnixIo where
  toClient : ℤ
  toServer : ℤ
  answer : Option Bytes

/-- What a handler leaves behind. -/
structure Outcome where
  node : Node
  pack : OdrPack
  ret : ℤ
  sent : List Frame
  unix : List UnixSend

/-- `recvfrom` into a buffer: the received bytes, at most `n`, replace the first ones. -/
def recvInto (buf data : Bytes) (n : ℕ) : Bytes := data.take n ++ buf.drop (min n data.length)

section Handlers

variable (rs : Resolver) (h : Host) (res : ℕ → ℤ)

/-- The `TYPE_RREQ` case of `process_pack`. -/
def processRreq (now : ℤ) (s : Node) (p : OdrPack) (srcHw : HwAddr) (recvIf : ℤ) : Outcome :=
  let t := updateRtblEntry rs h.sp now p srcHw recvIf s.rtbl
  let s := { s with rtbl := t }
  if p.rreq.rrepSent = 1 then ⟨s, p, 0, [], []⟩
  else if isSelfDest h p.destCanIpStr = 1 then
    let q := { p with type := .rrep, rrep := ⟨1, 1, 0⟩ }
    match getRtblEntry rs q.srcCanIpStr t with
    | none => ⟨s, q, -1, [], []⟩
    | some e =>
        let r := sendLlMsg res h.ifInfoList q e.nextHopHwaddr e.ifNo []
        ⟨s, q, r.2, r.1, []⟩
  else
    let srcIdx := getIndexFromIp rs p.srcCanIpStr.str
    if (s.latestRreq srcIdx).toInt < p.rreq.broadcastId then
      let latest := Function.update s.latestRreq srcIdx (Int8.ofInt p.rreq.broadcastId)
      let s := { s with latestRreq := latest }
      let q := { p with rreq.hop := p.rreq.hop + 1 }
      let destKey := getIndexFromIp rs q.destCanIpStr.str
      if entryExistsForSrc destKey t = 0 ∨ s.forcedDiscovery = 1 then
        let r := broadcastLlMsg res h.ifInfoList q recvIf []
        ⟨s, q, r.2, r.1, []⟩
      else
        match getRtblEntry rs q.destCanIpStr t with
        | none => ⟨s, { q with type := .rrep, rrep := ⟨q.rrep.hop + 1, 1, 0⟩ }, -1, [], []⟩
        | some e =>
            -- the reply leaves along the entry of the destination
            let q₁ := { q with type := .rrep, rrep := ⟨e.hop + 1, 1, 0⟩ }
            let r₁ := sendLlMsg res h.ifInfoList q₁ e.nextHopHwaddr e.ifNo []
            let q₂ := { q₁ with
              type := .rreq, rreq.hop := q₁.rreq.hop + 1, rreq.rrepSent := 1 }
            let r₂ := broadcastLlMsg res h.ifInfoList q₂ (-1) r₁.1
            ⟨s, q₂, r₂.2, r₂.1, []⟩
    else ⟨s, p, isSelfDest h p.destCanIpStr, [], []⟩

/-- The `TYPE_RREP` case of `process_pack`. -/
def processRrep (now : ℤ) (s : Node) (p : OdrPack) (srcHw : HwAddr) (recvIf : ℤ) : Outcome :=
  let ret := isSelfSrc h p.srcCanIpStr
  let t := updateRtblEntry rs h.sp now p srcHw recvIf s.rtbl
  let s := { s with rtbl := t }
  if ret = 1 then
    if s.routeDiscovered = 0 then
      let destKey := getIndexFromIp rs p.destCanIpStr.str
      let q := { p with type := .data, payload := strncpy p.payload s.msg 32, srcDest := 1 }
      let r := sendPayload res h.ifInfoList t q destKey []
      ⟨{ s with routeDiscovered := 1 }, q, r.2, r.1, []⟩
    else ⟨s, p, ret, [], []⟩
  else if entryExistsForSrc (getIndexFromIp rs p.srcCanIpStr.str) t = 0 then
    ⟨s, p, ret, [], []⟩
  else
    let q := { p with rrep.hop := p.rrep.hop + 1, rrep.forceDiscovery := 0 }
    match getRtblEntry rs q.srcCanIpStr t with
    | none => ⟨s, q, -1, [], []⟩
    | some e =>
        let r := sendLlMsg res h.ifInfoList q e.nextHopHwaddr e.ifNo []
        ⟨s, q, r.2, r.1, []⟩

/-- The `TYPE_DATA` case of `process_pack`. -/
def processData (io : UnixIo) (now : ℤ) (s : Node) (p : OdrPack) (srcHw : HwAddr)
    (recvIf : ℤ) : Outcome :=
  let t := updateRtblEntry rs h.sp now p srcHw recvIf s.rtbl
  let s := { s with rtbl := t }
  if isSelfSrc h p.srcCanIpStr ≠ 0 then
    let reply : OdrReply := ⟨p.payload.take 32, p.destCanIpStr, 57575⟩
    ⟨s, p, io.toClient, [], [.toClient s.alClientAddr reply]⟩
  else if isSelfDest h p.destCanIpStr ≠ 0 then
    match io.answer with
    | none => ⟨s, p, 1, [], [.toServer [116, 116]]⟩
    | some text =>
        let timeReply := recvInto s.serverTimeReply text 32
        let q := { p with srcDest := -1, payload := strncpy p.payload timeReply 32 }
        let r := sendPayload res h.ifInfoList t q (getIndexFromIp rs q.srcCanIpStr.str) []
        ⟨{ s with serverTimeReply := timeReply }, q, r.2, r.1, [.toServer [116, 116]]⟩
  else if p.srcDest = 1 then
    let destKey := getIndexFromIp rs p.destCanIpStr.str
    if entryExistsForSrc destKey t = 0 then ⟨s, p, 0, [], []⟩
    else
      let r := sendPayload res h.ifInfoList t p destKey []
      ⟨s, p, r.2, r.1, []⟩
  else if p.srcDest = -1 then
    let srcIdx := getIndexFromIp rs p.srcCanIpStr.str
    if entryExistsForSrc srcIdx t = 0 then ⟨s, p, 0, [], []⟩
    else
      let r := sendPayload res h.ifInfoList t p srcIdx []
      ⟨s, p, r.2, r.1, []⟩
  else ⟨s, p, 0, [], []⟩

/-- `process_pack`. -/
def processPack (io : UnixIo) (now : ℤ) (s : Node) (p : OdrPack) (srcHw : HwAddr)
    (recvIf : ℤ) : Outcome :=
  if p.rreq.hop > maxh ∨ p.rrep.hop > maxh then ⟨s, p, 1, [], []⟩
  else
    match p.type with
    | .rreq => processRreq rs h res now s p srcHw recvIf
    | .rrep => processRrep rs h res now s p srcHw recvIf
    | .data => processData rs h res io now s p srcHw recvIf
    | .other _ => ⟨s, p, -1, [], []⟩

/-- The dotted form of the address that a request names. -/
def requestDest (s : Node) (req : OdrReq) : List Char := rs.sockNtop (strncpy s.msg req.msg 32)

/-- The test by which `main` answers a request from the routing table. -/
def skipDiscovery (s : Node) (req : OdrReq) : Bool :=
  entryExistsForSrc (getIndexFromIp rs (requestDest rs s req)) s.rtbl ≠ 0 ∧
    req.forcedDiscovery = 0

/-- The DATA packet of a request answered from the table: its headers are those of the
request before, or whatever `source_packet` held at the start. -/
def dataPack (s : Node) (req : OdrReq) : OdrPack :=
  { s.sourcePacket with
    type := .data
    destCanIpStr := CanIp.cut (requestDest rs s req)
    srcCanIpStr := h.canIp
    srcDest := 1 }

/-- The RREQ of a request, which is built even when it is not sent. -/
def rreqPack (s : Node) (req : OdrReq) : OdrPack :=
  { s.sourcePacket with
    type := .rreq
    destCanIpStr := CanIp.cut (requestDest rs s req)
    srcCanIpStr := h.canIp
    rreq := ⟨1, s.runningBroadcastNo, 0, 0⟩
    rrep := ⟨-1, -1, -1⟩
    srcDest := if skipDiscovery rs s req then 1 else s.sourcePacket.srcDest }

/-- `running_broadcast_no++` on a 32 bit `int`. -/
def nextBroadcastNo (n : ℤ) : ℤ := Int.bmod (n + 1) (2 ^ 32)

/-- The branch of `main` that handles one datagram `req` of the Unix socket, sent from the
address `addr`.  The source marks its own RREQ as seen with the counter it has already
incremented, narrowed to a `char`. -/
def mainRequest (s : Node) (addr : UnAddr) (req : OdrReq) : Outcome :=
  let r := if skipDiscovery rs s req then
      sendPayload res h.ifInfoList s.rtbl (dataPack rs h s req)
        (getIndexFromIp rs (requestDest rs s req)) []
    else broadcastLlMsg res h.ifInfoList (rreqPack rs h s req) (-1) []
  let next := nextBroadcastNo s.runningBroadcastNo
  let s' := { s with
    runningBroadcastNo := next
    latestRreq := Function.update s.latestRreq (getIndexFromIp rs h.canIp.str) (Int8.ofInt next)
    forcedDiscovery := req.forcedDiscovery
    routeDiscovered := 0
    msg := strncpy s.msg req.msg 32
    alClientAddr := some addr
    sourcePacket := rreqPack rs h s req }
  ⟨s', rreqPack rs h s req, r.2, r.1, []⟩

end Handlers

end Odr
