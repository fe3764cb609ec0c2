/-
# `process_pack`, traced

`processPack` says what becomes of a packet.  Here the same code is followed more closely.

- The numbers that `get_index_from_ip` finds for the two address fields are arguments, because
  an address field off the wire need not be terminated.
- The clock is read anew at every call of `time(NULL)`.
- `get_rtbl_entry` writes through its output arguments, so that memory it leaves alone keeps
  what it held (`junk`).
- The places that send along an entry of the routing table are recorded together with the entry
  they find, and so are the indices at which `latest_rreq` is read and written.

For the addresses and the clock of `processPack` the outcome is the same (`processPackAt_eq`).
-/
import Odr.Source.ClockedUpdate
import Odr.Source.Handled

namespace Odr

/-- What `get_rtbl_entry` leaves in the return register and in its output arguments. -/
structure RtblRead where
  ret : ℤ
  sendToHwAddr : HwAddr
  sendFromIfIndex : ℤ
  hop : ℤ
deriving DecidableEq, Repr

/-- The loop of `get_rtbl_entry`, which returns from inside; past its end the function ends
without a `return`. -/
def getRtblEntryLoop (key : ℤ) (junk : RtblRead) : Rtbl → RtblRead
  | [] => junk
  | e :: t =>
      if e.key = key then ⟨1, e.nextHopHwaddr, e.ifNo, e.hop⟩ else getRtblEntryLoop key junk t

/-- `get_rtbl_entry` with its output arguments. -/
def getRtblEntryInto (key : ℤ) (t : Rtbl) (junk : RtblRead) : RtblRead :=
  if entryExistsForSrc key t = 1 then getRtblEntryLoop key junk t else { junk with ret := -1 }

/-- The places of `process_pack` that send along an entry of the routing table. -/
inductive Site
  | rreqDest
  | rreqRelay
  | rrepSource
  | rrepRelay
  | dataTurn
  | dataToServer
  | dataToClient
deriving DecidableEq, Repr

/-- A place that is reached, the key it looks up, and the entry that is there. -/
structure Lookup where
  site : Site
  key : ℤ
  entry : Option RtblEntry
deriving DecidableEq, Repr

/-- An outcome with the lookups and the indices into `latest_rreq` on the way to it. -/
structure Traced where
  out : Outcome
  lookups : List Lookup
  indices : List ℤ

section Update

variable (srcIdx destIdx sp : ℤ) (clk : ℕ → ℤ) (p : OdrPack) (nextHop : HwAddr) (ifIdx : ℤ)

/-- `update_rtbl_entry` with the numbers of the two addresses. -/
def clockedUpdateAt (t : Rtbl) : Rtbl :=
  match p.type with
  | .rreq =>
      let o : Offer := ⟨srcIdx, p.srcCanIpStr, nextHop, ifIdx, p.rreq.hop, p.rreq.hop, clk 0⟩
      let r := clockedOrAdd sp o o.entry clk 0 t
      if r.2.1 then r.1
      else if p.rreq.rrepSent = 1 then
        (clockedOrAdd sp o { o.entry with destCanIpStr := p.destCanIpStr } clk r.2.2 r.1).1
      else r.1
  | .rrep =>
      let o : Offer := ⟨destIdx, p.destCanIpStr, nextHop, ifIdx, p.rreq.hop, p.rrep.hop, clk 0⟩
      (clockedOrAdd sp o o.entry clk 0 t).1
  | .data =>
      let o₁ : Offer := ⟨srcIdx, p.srcCanIpStr, nextHop, ifIdx, p.rreq.hop, p.rreq.hop, clk 0⟩
      let r := if entryExistsForSrc srcIdx t = 1 ∧ p.srcDest = 1 then clockedLoop sp o₁ clk 0 t
        else (t, false, 0)
      if r.2.1 then r.1
      else
        let o₂ : Offer :=
          ⟨destIdx, p.destCanIpStr, nextHop, ifIdx, p.rreq.hop, p.rreq.hop, clk 0⟩
        if entryExistsForSrc destIdx r.1 = 1 ∧ p.srcDest = -1 then
          (clockedLoop sp o₂ clk r.2.2 r.1).1
        else r.1
  | .other _ => t

end Update

section Handlers

variable (h : Host) (res : ℕ → ℤ) (junk : RtblRead) (srcIdx destIdx : ℤ)

/-- The `TYPE_RREQ` case, once `update_rtbl_entry` has left the table `t`. -/
def rreqAt (t : Rtbl) (s : Node) (p : OdrPack) (recvIf : ℤ) : Traced :=
  let s := { s with rtbl := t }
  if p.rreq.rrepSent = 1 then ⟨⟨s, p, 0, [], []⟩, [], []⟩
  else if isSelfDest h p.destCanIpStr = 1 then
    let q := { p with type := .rrep, rrep := ⟨1, 1, 0⟩ }
    let looked := [⟨.rreqDest, srcIdx, findKey srcIdx t⟩]
    let e := getRtblEntryInto srcIdx t junk
    if e.ret = -1 then ⟨⟨s, q, -1, [], []⟩, looked, []⟩
    else
      let r := sendLlMsg res h.ifInfoList q e.sendToHwAddr e.sendFromIfIndex []
      ⟨⟨s, q, r.2, r.1, []⟩, looked, []⟩
  else if (s.latestRreq srcIdx).toInt < p.rreq.broadcastId then
    let latest := Function.update s.latestRreq srcIdx (Int8.ofInt p.rreq.broadcastId)
    let s := { s with latestRreq := latest }
    let q := { p with rreq.hop := p.rreq.hop + 1 }
    if entryExistsForSrc destIdx t = 0 ∨ s.forcedDiscovery = 1 then
      let r := broadcastLlMsg res h.ifInfoList q recvIf []
      ⟨⟨s, q, r.2, r.1, []⟩, [], [srcIdx]⟩
    else
      let looked := [⟨.rreqRelay, destIdx, findKey destIdx t⟩]
      -- the hop count is read into the packet
      let e := getRtblEntryInto destIdx t { junk with hop := q.rrep.hop }
      let q₁ := { q with type := .rrep, rrep := ⟨e.hop + 1, 1, 0⟩ }
      if e.ret = -1 then ⟨⟨s, q₁, -1, [], []⟩, looked, [srcIdx]⟩
      else
        let r₁ := sendLlMsg res h.ifInfoList q₁ e.sendToHwAddr e.sendFromIfIndex []
        let q₂ := { q₁ with
          type := .rreq, rreq.hop := q₁.rreq.hop + 1, rreq.rrepSent := 1 }
        let r₂ := broadcastLlMsg res h.ifInfoList q₂ (-1) r₁.1
        ⟨⟨s, q₂, r₂.2, r₂.1, []⟩, looked, [srcIdx]⟩
  else ⟨⟨s, p, isSelfDest h p.destCanIpStr, [], []⟩, [], [srcIdx]⟩

/-- The `TYPE_RREP` case, once `update_rtbl_entry` has left the table `t`. -/
def rrepAt (t : Rtbl) (s : Node) (p : OdrPack) : Traced :=
  let ret := isSelfSrc h p.srcCanIpStr
  let s := { s with rtbl := t }
  if ret = 1 then
    if s.routeDiscovered = 0 then
      let q := { p with type := .data, payload := strncpy p.payload s.msg 32, srcDest := 1 }
      let r := sendPayload res h.ifInfoList t q destIdx []
      ⟨⟨{ s with routeDiscovered := 1 }, q, r.2, r.1, []⟩,
        [⟨.rrepSource, destIdx, findKey destIdx t⟩], []⟩
    else ⟨⟨s, p, ret, [], []⟩, [], []⟩
  else if entryExistsForSrc srcIdx t = 0 then ⟨⟨s, p, ret, [], []⟩, [], []⟩
  else
    let q := { p with rrep.hop := p.rrep.hop + 1, rrep.forceDiscovery := 0 }
    let looked := [⟨.rrepRelay, srcIdx, findKey srcIdx t⟩]
    let e := getRtblEntryInto srcIdx t junk
    if e.ret = -1 then ⟨⟨s, q, -1, [], []⟩, looked, []⟩
    else
      let r := sendLlMsg res h.ifInfoList q e.sendToHwAddr e.sendFromIfIndex []
      ⟨⟨s, q, r.2, r.1, []⟩, looked, []⟩

/-- The `TYPE_DATA` case, once `update_rtbl_entry` has left the table `t`. -/
def dataAt (io : UnixIo) (t : Rtbl) (s : Node) (p : OdrPack) : Traced :=
  let s := { s with rtbl := t }
  if isSelfSrc h p.srcCanIpStr ≠ 0 then
    let reply : OdrReply := ⟨p.payload.take 32, p.destCanIpStr, 57575⟩
    ⟨⟨s, p, io.toClient, [], [.toClient s.alClientAddr reply]⟩, [], []⟩
  else if isSelfDest h p.destCanIpStr ≠ 0 then
    match io.answer with
    | none => ⟨⟨s, p, 1, [], [.toServer [116, 116]]⟩, [], []⟩
    | some text =>
        let timeReply := recvInto s.serverTimeReply text 32
        let q := { p with srcDest := -1, payload := strncpy p.payload timeReply 32 }
        let r := sendPayload res h.ifInfoList t q srcIdx []
        ⟨⟨{ s with serverTimeReply := timeReply }, q, r.2, r.1, [.toServer [116, 116]]⟩,
          [⟨.dataTurn, srcIdx, findKey srcIdx t⟩], []⟩
  else if p.srcDest = 1 then
    if entryExistsForSrc destIdx t = 0 then ⟨⟨s, p, 0, [], []⟩, [], []⟩
    else
      let r := sendPayload res h.ifInfoList t p destIdx []
      ⟨⟨s, p, r.2, r.1, []⟩, [⟨.dataToServer, destIdx, findKey destIdx t⟩], []⟩
  else if p.srcDest = -1 then
    if entryExistsForSrc srcIdx t = 0 then ⟨⟨s, p, 0, [], []⟩, [], []⟩
    else
      let r := sendPayload res h.ifInfoList t p srcIdx []
      ⟨⟨s, p, r.2, r.1, []⟩, [⟨.dataToClient, srcIdx, findKey srcIdx t⟩], []⟩
  else ⟨⟨s, p, 0, [], []⟩, [], []⟩

/-- The cases of `process_pack`, once `update_rtbl_entry` has left the table `t`. -/
def packAt (io : UnixIo) (t : Rtbl) (s : Node) (p : OdrPack) (recvIf : ℤ) : Traced :=
  match p.type with
  | .rreq => rreqAt h res junk srcIdx destIdx t s p recvIf
  | .rrep => rrepAt h res junk srcIdx destIdx t s p
  | .data => dataAt h res srcIdx destIdx io t s p
  | .other _ => ⟨⟨{ s with rtbl := t }, p, -1, [], []⟩, [], []⟩

/-- `process_pack`. -/
def processPackAt (io : UnixIo) (clk : ℕ → ℤ) (s : Node) (p : OdrPack) (srcHw : HwAddr)
    (recvIf : ℤ) : Traced :=
  if p.rreq.hop > maxh ∨ p.rrep.hop > maxh then ⟨⟨s, p, 1, [], []⟩, [], []⟩
  else packAt h res junk srcIdx destIdx io
    (clockedUpdateAt srcIdx destIdx h.sp clk p srcHw recvIf s.rtbl) s p recvIf

end Handlers

/-! ## The lookup -/

lemma getRtblEntryLoop_eq (key : ℤ) (t : Rtbl) (junk : RtblRead) :
    getRtblEntryLoop key junk t =
      ((findKey key t).map fun e => ⟨1, e.nextHopHwaddr, e.ifNo, e.hop⟩).getD junk := by
  induction t with
  | nil => rfl
  | cons e t ih =>
    rw [getRtblEntryLoop, findKey_cons]
    split
    · rfl
    · exact ih

/-- `get_rtbl_entry` finds the first entry with the key, and never gets past its end. -/
lemma getRtblEntryInto_eq (key : ℤ) (t : Rtbl) (junk : RtblRead) :
    getRtblEntryInto key t junk =
      ((findKey key t).map fun e => ⟨1, e.nextHopHwaddr, e.ifNo, e.hop⟩).getD
        { junk with ret := -1 } := by
  rw [getRtblEntryInto]
  split
  · next hex =>
    obtain ⟨e, he⟩ := entryExistsForSrc_eq_one_iff.mp hex
    rw [getRtblEntryLoop_eq, he]
    rfl
  · next hex =>
    rw [entryExistsForSrc_ne_one.mp hex]
    rfl

lemma getRtblEntryInto_of_some {key : ℤ} {t : Rtbl} {e : RtblEntry} (h : findKey key t = some e)
    (junk : RtblRead) :
    getRtblEntryInto key t junk = ⟨1, e.nextHopHwaddr, e.ifNo, e.hop⟩ := by
  rw [getRtblEntryInto_eq, h]
  rfl

lemma getRtblEntryInto_of_none {key : ℤ} {t : Rtbl} (h : findKey key t = none)
    (junk : RtblRead) : getRtblEntryInto key t junk = { junk with ret := -1 } := by
  rw [getRtblEntryInto_eq, h]
  rfl

lemma getRtblEntryInto_ret_ne {key : ℤ} {t : Rtbl} {e : RtblEntry}
    (h : findKey key t = some e) (junk : RtblRead) : (getRtblEntryInto key t junk).ret ≠ -1 := by
  rw [getRtblEntryInto_of_some h]
  exact (by decide : (1 : ℤ) ≠ -1)

/-! ## The untraced code -/

section

variable {h : Host} {res : ℕ → ℤ} {junk : RtblRead} {srcIdx destIdx : ℤ} {io : UnixIo}
  {clk : ℕ → ℤ} {s : Node} {p : OdrPack} {srcHw : HwAddr} {recvIf : ℤ}

lemma processPackAt_of_within (hop : p.WithinMaxh) :
    processPackAt h res junk srcIdx destIdx io clk s p srcHw recvIf =
      packAt h res junk srcIdx destIdx io
        (clockedUpdateAt srcIdx destIdx h.sp clk p srcHw recvIf s.rtbl) s p recvIf :=
  if_neg hop.not_over

lemma processPackAt_of_over (hop : p.rreq.hop > maxh ∨ p.rrep.hop > maxh) :
    processPackAt h res junk srcIdx destIdx io clk s p srcHw recvIf =
      ⟨⟨s, p, 1, [], []⟩, [], []⟩ :=
  if_pos hop

end

section

variable {rs : Resolver} {h : Host} {res : ℕ → ℤ} {io : UnixIo} {now : ℤ} {s : Node}
  {p : OdrPack} {srcHw : HwAddr} {recvIf : ℤ}

lemma clockedUpdateAt_const :
    clockedUpdateAt (srcKey rs p) (destKey rs p) h.sp (fun _ => now) p srcHw recvIf s.rtbl
      = updateRtblEntry rs h.sp now p srcHw recvIf s.rtbl :=
  clockedUpdate_const rs h.sp now p srcHw recvIf s.rtbl

lemma rreqAt_eq (junk : RtblRead) :
    (rreqAt h res junk (srcKey rs p) (destKey rs p)
      (updateRtblEntry rs h.sp now p srcHw recvIf s.rtbl) s p recvIf).out
      = processRreq rs h res now s p srcHw recvIf := by
  rw [processRreq, rreqAt]
  generalize updateRtblEntry rs h.sp now p srcHw recvIf s.rtbl = t
  simp only [getRtblEntry_eq]
  by_cases hsent : p.rreq.rrepSent = 1
  · simp only [if_pos hsent]
  by_cases hself : isSelfDest h p.destCanIpStr = 1
  · rcases hfind : findKey (srcKey rs p) t with _ | e
    · simp [hsent, hself, getRtblEntryInto_of_none hfind]
    · simp [hsent, hself, getRtblEntryInto_of_some hfind]
  by_cases hnew : (s.latestRreq (srcKey rs p)).toInt < p.rreq.broadcastId
  · rcases hfind : findKey (destKey rs p) t with _ | e
    · have hex := entryExistsForSrc_eq_zero.mpr hfind
      simp [hsent, hself, hnew, hex]
    · by_cases hex : entryExistsForSrc (destKey rs p) t = 0 ∨ s.forcedDiscovery = 1
      · simp [hsent, hself, hnew, hex]
      · simp [hsent, hself, hnew, hex, getRtblEntryInto_of_some hfind]
  · simp [hsent, hself, hnew]

lemma rrepAt_eq (junk : RtblRead) :
    (rrepAt h res junk (srcKey rs p) (destKey rs p)
      (updateRtblEntry rs h.sp now p srcHw recvIf s.rtbl) s p).out
      = processRrep rs h res now s p srcHw recvIf := by
  rw [processRrep, rrepAt]
  generalize updateRtblEntry rs h.sp now p srcHw recvIf s.rtbl = t
  simp only [getRtblEntry_eq]
  by_cases hself : isSelfSrc h p.srcCanIpStr = 1
  · by_cases hdisc : s.routeDiscovered = 0
    · simp only [if_pos hself, if_pos hdisc]
    · simp only [if_pos hself, if_neg hdisc]
  rcases hfind : findKey (srcKey rs p) t with _ | e
  · have hex := entryExistsForSrc_eq_zero.mpr hfind
    simp only [if_neg hself, if_pos hex]
  · have hex := entryExistsForSrc_ne_zero.mpr ⟨e, hfind⟩
    simp [hself, hex, getRtblEntryInto_of_some hfind]

lemma dataAt_eq :
    (dataAt h res (srcKey rs p) (destKey rs p) io
      (updateRtblEntry rs h.sp now p srcHw recvIf s.rtbl) s p).out
      = processData rs h res io now s p srcHw recvIf := by
  rw [processData, dataAt]
  generalize updateRtblEntry rs h.sp now p srcHw recvIf s.rtbl = t
  by_cases hsrc : isSelfSrc h p.srcCanIpStr ≠ 0
  · simp only [if_pos hsrc]
  by_cases hdest : isSelfDest h p.destCanIpStr ≠ 0
  · rcases io.answer with _ | text
    · simp only [if_neg hsrc, if_pos hdest]
    · simp only [if_neg hsrc, if_pos hdest]
  simp only [if_neg hsrc, if_neg hdest]
  by_cases hto : p.srcDest = 1
  · simp only [if_pos hto]
    split <;> rfl
  by_cases hback : p.srcDest = -1
  · simp only [if_neg hto, if_pos hback]
    split <;> rfl
  · simp only [if_neg hto, if_neg hback]

/-- **For the addresses of the packet and a clock that stands still the traced code is the
code.** -/
theorem processPackAt_eq (junk : RtblRead) :
    (processPackAt h res junk (srcKey rs p) (destKey rs p) io (fun _ => now) s p srcHw
      recvIf).out = processPack rs h res io now s p srcHw recvIf := by
  rw [processPackAt, processPack]
  split
  · rfl
  · rw [packAt, clockedUpdateAt_const]
    rcases hty : p.type with _ | _ | _ | n
    · exact rreqAt_eq junk
    · exact rrepAt_eq junk
    · exact dataAt_eq
    · rw [updateRtblEntry, hty]

end

end Odr
