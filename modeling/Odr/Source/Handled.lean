/-
# What handling a packet can do

`Handled` lists, one constructor for each path through `process_pack`, the state, the frames
and the Unix datagrams that the path leaves, with the tests that lead to it.
`processPack_handled` says that every call takes one of these paths, so that a property of
all calls is proved by a case analysis on `Handled` and never by unfolding `processPack`.

Two returns of the source are missing from the list because they cannot be reached: the
destination of an RREQ always finds the route back, which the update has just recorded, and
an intermediate node only looks up a destination whose entry it has just seen.
-/
import Odr.Source.ProcessPack

namespace Odr

section

variable (rs : Resolver) (h : Host) (io : UnixIo) (now : ℤ) (s : Node) (p : OdrPack)
  (srcHw : HwAddr) (recvIf : ℤ)

/-- The key of the packet's source address. -/
abbrev srcKey : ℤ := getIndexFromIp rs p.srcCanIpStr.str

/-- The key of the packet's destination address. -/
abbrev destKey : ℤ := getIndexFromIp rs p.destCanIpStr.str

/-- The node once `update_rtbl_entry` has read the packet. -/
def Node.learn : Node :=
  { s with rtbl := updateRtblEntry rs h.sp now p srcHw recvIf s.rtbl }

/-- The RREP with which the destination answers. -/
def OdrPack.destReply : OdrPack := { p with type := .rrep, rrep := ⟨1, 1, 0⟩ }

/-- The RREQ that an intermediate node floods. -/
def OdrPack.reflood : OdrPack := { p with rreq.hop := p.rreq.hop + 1 }

/-- The RREP that an intermediate node makes of its entry for the destination. -/
def OdrPack.tableReply (e : RtblEntry) : OdrPack :=
  { p with type := .rrep, rreq.hop := p.rreq.hop + 1, rrep := ⟨e.hop + 1, 1, 0⟩ }

/-- The RREQ that an intermediate node floods after it has answered. -/
def OdrPack.answered (e : RtblEntry) : OdrPack :=
  { p with
    type := .rreq
    rreq := ⟨p.rreq.hop + 2, p.rreq.broadcastId, p.rreq.forceDiscovery, 1⟩
    rrep := ⟨e.hop + 1, 1, 0⟩ }

/-- The RREP as an intermediate node passes it on. -/
def OdrPack.relayReply : OdrPack :=
  { p with rrep.hop := p.rrep.hop + 1, rrep.forceDiscovery := 0 }

/-- The DATA packet that the source makes of an RREP. -/
def OdrPack.request (msg : Bytes) : OdrPack :=
  { p with type := .data, payload := strncpy p.payload msg 32, srcDest := 1 }

/-- The DATA packet that the destination turns round. -/
def OdrPack.timeReply (text : Bytes) : OdrPack :=
  { p with srcDest := -1, payload := strncpy p.payload text 32 }

/-- The node after it has marked an RREQ as seen. -/
def Node.mark (key id : ℤ) : Node :=
  { s with latestRreq := Function.update s.latestRreq key (Int8.ofInt id) }

/-- The packet passes the test against `MAXH`. -/
def OdrPack.WithinMaxh : Prop := p.rreq.hop ≤ maxh ∧ p.rrep.hop ≤ maxh

instance : Decidable p.WithinMaxh := inferInstanceAs (Decidable (_ ∧ _))

lemma OdrPack.WithinMaxh.not_over {p : OdrPack} (hop : p.WithinMaxh) :
    ¬(p.rreq.hop > maxh ∨ p.rrep.hop > maxh) := by
  rw [not_or, not_lt, not_lt]
  exact hop

lemma OdrPack.over_of_not {p : OdrPack} (hop : ¬p.WithinMaxh) :
    p.rreq.hop > maxh ∨ p.rrep.hop > maxh := by
  rw [OdrPack.WithinMaxh, not_and_or, not_le, not_le] at hop
  exact hop

/-- The paths through `process_pack`. -/
inductive Handled : Node → List Frame → List UnixSend → Prop
  | dropped (hop : ¬p.WithinMaxh) : Handled s [] []
  | unknown (hop : p.WithinMaxh) (n : ℤ) (hty : p.type = .other n) : Handled s [] []
  | rreqKnown (hop : p.WithinMaxh) (hty : p.type = .rreq) (hsent : p.rreq.rrepSent = 1) :
      Handled (s.learn rs h now p srcHw recvIf) [] []
  | rreqDest (hop : p.WithinMaxh) (hty : p.type = .rreq) (hsent : p.rreq.rrepSent ≠ 1)
      (hself : isSelfDest h p.destCanIpStr = 1) (e : RtblEntry)
      (he : findKey (srcKey rs p) (s.learn rs h now p srcHw recvIf).rtbl = some e) :
      Handled (s.learn rs h now p srcHw recvIf)
        (llFrames h.ifInfoList p.destReply e.nextHopHwaddr e.ifNo) []
  | rreqDup (hop : p.WithinMaxh) (hty : p.type = .rreq) (hsent : p.rreq.rrepSent ≠ 1)
      (hself : isSelfDest h p.destCanIpStr ≠ 1)
      (hdup : p.rreq.broadcastId ≤ (s.latestRreq (srcKey rs p)).toInt) :
      Handled (s.learn rs h now p srcHw recvIf) [] []
  | rreqFlood (hop : p.WithinMaxh) (hty : p.type = .rreq) (hsent : p.rreq.rrepSent ≠ 1)
      (hself : isSelfDest h p.destCanIpStr ≠ 1)
      (hnew : (s.latestRreq (srcKey rs p)).toInt < p.rreq.broadcastId)
      (hroute : findKey (destKey rs p) (s.learn rs h now p srcHw recvIf).rtbl = none ∨
        s.forcedDiscovery = 1) :
      Handled ((s.learn rs h now p srcHw recvIf).mark (srcKey rs p) p.rreq.broadcastId)
        (bcastFrames h.ifInfoList p.reflood recvIf) []
  | rreqAnswer (hop : p.WithinMaxh) (hty : p.type = .rreq) (hsent : p.rreq.rrepSent ≠ 1)
      (hself : isSelfDest h p.destCanIpStr ≠ 1)
      (hnew : (s.latestRreq (srcKey rs p)).toInt < p.rreq.broadcastId)
      (hforced : s.forcedDiscovery ≠ 1) (e : RtblEntry)
      (he : findKey (destKey rs p) (s.learn rs h now p srcHw recvIf).rtbl = some e) :
      Handled ((s.learn rs h now p srcHw recvIf).mark (srcKey rs p) p.rreq.broadcastId)
        (llFrames h.ifInfoList (p.tableReply e) e.nextHopHwaddr e.ifNo ++
          bcastFrames h.ifInfoList (p.answered e) (-1)) []
  | rrepSource (hop : p.WithinMaxh) (hty : p.type = .rrep)
      (hself : isSelfSrc h p.srcCanIpStr = 1) (hrd : s.routeDiscovered = 0) :
      Handled { s.learn rs h now p srcHw recvIf with routeDiscovered := 1 }
        (payloadFrames h.ifInfoList (s.learn rs h now p srcHw recvIf).rtbl (p.request s.msg)
          (destKey rs p)) []
  | rrepLate (hop : p.WithinMaxh) (hty : p.type = .rrep)
      (hself : isSelfSrc h p.srcCanIpStr = 1) (hrd : s.routeDiscovered ≠ 0) :
      Handled (s.learn rs h now p srcHw recvIf) [] []
  | rrepLost (hop : p.WithinMaxh) (hty : p.type = .rrep)
      (hself : isSelfSrc h p.srcCanIpStr ≠ 1)
      (hroute : findKey (srcKey rs p) (s.learn rs h now p srcHw recvIf).rtbl = none) :
      Handled (s.learn rs h now p srcHw recvIf) [] []
  | rrepRelay (hop : p.WithinMaxh) (hty : p.type = .rrep)
      (hself : isSelfSrc h p.srcCanIpStr ≠ 1) (e : RtblEntry)
      (he : findKey (srcKey rs p) (s.learn rs h now p srcHw recvIf).rtbl = some e) :
      Handled (s.learn rs h now p srcHw recvIf)
        (llFrames h.ifInfoList p.relayReply e.nextHopHwaddr e.ifNo) []
  | dataClient (hop : p.WithinMaxh) (hty : p.type = .data)
      (hself : isSelfSrc h p.srcCanIpStr ≠ 0) :
      Handled (s.learn rs h now p srcHw recvIf) []
        [.toClient s.alClientAddr ⟨p.payload.take 32, p.destCanIpStr, 57575⟩]
  | dataTimeout (hop : p.WithinMaxh) (hty : p.type = .data)
      (hsrc : isSelfSrc h p.srcCanIpStr = 0) (hself : isSelfDest h p.destCanIpStr ≠ 0)
      (hio : io.answer = none) :
      Handled (s.learn rs h now p srcHw recvIf) [] [.toServer [116, 116]]
  | dataTurn (hop : p.WithinMaxh) (hty : p.type = .data)
      (hsrc : isSelfSrc h p.srcCanIpStr = 0) (hself : isSelfDest h p.destCanIpStr ≠ 0)
      (text : Bytes) (hio : io.answer = some text) :
      Handled
        { s.learn rs h now p srcHw recvIf with
          serverTimeReply := recvInto s.serverTimeReply text 32 }
        (payloadFrames h.ifInfoList (s.learn rs h now p srcHw recvIf).rtbl
          (p.timeReply (recvInto s.serverTimeReply text 32)) (srcKey rs p))
        [.toServer [116, 116]]
  | dataToServer (hop : p.WithinMaxh) (hty : p.type = .data)
      (hsrc : isSelfSrc h p.srcCanIpStr = 0) (hself : isSelfDest h p.destCanIpStr = 0)
      (hdir : p.srcDest = 1) :
      Handled (s.learn rs h now p srcHw recvIf)
        (payloadFrames h.ifInfoList (s.learn rs h now p srcHw recvIf).rtbl p (destKey rs p)) []
  | dataToClient (hop : p.WithinMaxh) (hty : p.type = .data)
      (hsrc : isSelfSrc h p.srcCanIpStr = 0) (hself : isSelfDest h p.destCanIpStr = 0)
      (hdir : p.srcDest = -1) :
      Handled (s.learn rs h now p srcHw recvIf)
        (payloadFrames h.ifInfoList (s.learn rs h now p srcHw recvIf).rtbl p (srcKey rs p)) []
  | dataStray (hop : p.WithinMaxh) (hty : p.type = .data)
      (hsrc : isSelfSrc h p.srcCanIpStr = 0) (hself : isSelfDest h p.destCanIpStr = 0)
      (hdir : p.srcDest ≠ 1 ∧ p.srcDest ≠ -1) :
      Handled (s.learn rs h now p srcHw recvIf) [] []

/-- The packets that leave a node that has read `p`. -/
inductive Leaves : OdrPack → Prop
  | destReply (hop : p.WithinMaxh) (hty : p.type = .rreq)
      (hself : isSelfDest h p.destCanIpStr = 1) : Leaves p.destReply
  | reflood (hop : p.WithinMaxh) (hty : p.type = .rreq) : Leaves p.reflood
  | tableReply (hop : p.WithinMaxh) (hty : p.type = .rreq) (e : RtblEntry)
      (he : findKey (destKey rs p) (s.learn rs h now p srcHw recvIf).rtbl = some e) :
      Leaves (p.tableReply e)
  | answered (hop : p.WithinMaxh) (hty : p.type = .rreq) (e : RtblEntry) : Leaves (p.answered e)
  | relayReply (hop : p.WithinMaxh) (hty : p.type = .rrep) : Leaves p.relayReply
  | request (hop : p.WithinMaxh) (hty : p.type = .rrep) : Leaves (p.request s.msg)
  | timeReply (hop : p.WithinMaxh) (hty : p.type = .data) (text : Bytes) :
      Leaves (p.timeReply text)
  | same (hop : p.WithinMaxh) (hty : p.type = .data) : Leaves p

end

variable {rs : Resolver} {h : Host} {res : ℕ → ℤ} {io : UnixIo} {now : ℤ} {s : Node}
  {p : OdrPack} {srcHw : HwAddr} {recvIf : ℤ}

lemma payloadFrames_learn_of_missing {ifs : List IfInfo} {packet : OdrPack} {key : ℤ}
    (h0 : entryExistsForSrc key (updateRtblEntry rs h.sp now p srcHw recvIf s.rtbl) = 0) :
    payloadFrames ifs (s.learn rs h now p srcHw recvIf).rtbl packet key = [] := by
  have hnot : ∀ e ∈ (s.learn rs h now p srcHw recvIf).rtbl, e.key ≠ key := by
    simpa [entryExistsForSrc, Node.learn] using h0
  rw [payloadFrames, List.filter_eq_nil_iff.mpr (by simpa using hnot)]
  rfl

/-- After an RREQ the node has an entry for the RREQ's source. -/
lemma exists_findKey_src (rs : Resolver) (h : Host) (now : ℤ) (s : Node) (srcHw : HwAddr)
    (recvIf : ℤ) (hty : p.type = .rreq) :
    ∃ e, findKey (srcKey rs p) (s.learn rs h now p srcHw recvIf).rtbl = some e := by
  have ho : offer rs now p srcHw recvIf
      = some (srcOffer rs now p srcHw recvIf p.rreq.hop p.rreq.hop) := by rw [offer, hty]
  rcases he : findKey (srcKey rs p) s.rtbl with _ | e
  · obtain ⟨ip, h'⟩ := findKey_updateRtblEntry_new h.sp ho (by simp [hty]) he
    exact ⟨_, h'⟩
  · obtain ⟨ip, h'⟩ := findKey_updateRtblEntry_some h.sp ho he
    exact ⟨_, h'⟩

/-- The route of an entry that the node finds once it has read the packet. -/
lemma routeAfter_of_learn {key : ℤ} {e : RtblEntry}
    (he : findKey key (s.learn rs h now p srcHw recvIf).rtbl = some e) :
    routeAfter rs h.sp now p srcHw recvIf s.rtbl key = some e.route := by
  rw [← route_updateRtblEntry h.sp key]
  exact congrArg (Option.map RtblEntry.route) he

lemma getRtblEntry_of_learn {ip : CanIp} {e : RtblEntry}
    (he : findKey (getIndexFromIp rs ip.str) (s.learn rs h now p srcHw recvIf).rtbl = some e) :
    getRtblEntry rs ip (updateRtblEntry rs h.sp now p srcHw recvIf s.rtbl) = some e := by
  rw [getRtblEntry_eq]
  exact he

lemma entryExistsForSrc_of_learn {key : ℤ} {e : RtblEntry}
    (he : findKey key (s.learn rs h now p srcHw recvIf).rtbl = some e) :
    entryExistsForSrc key (updateRtblEntry rs h.sp now p srcHw recvIf s.rtbl) ≠ 0 :=
  entryExistsForSrc_ne_zero.mpr ⟨e, he⟩

lemma entryExistsForSrc_of_not_learn {key : ℤ}
    (he : findKey key (s.learn rs h now p srcHw recvIf).rtbl = none) :
    entryExistsForSrc key (updateRtblEntry rs h.sp now p srcHw recvIf s.rtbl) = 0 :=
  entryExistsForSrc_eq_zero.mpr he

lemma processRreq_handled (hop : p.WithinMaxh) (hty : p.type = .rreq) :
    Handled rs h io now s p srcHw recvIf (processRreq rs h res now s p srcHw recvIf).node
      (processRreq rs h res now s p srcHw recvIf).sent
      (processRreq rs h res now s p srcHw recvIf).unix := by
  dsimp only [processRreq]
  by_cases hsent : p.rreq.rrepSent = 1
  · rw [if_pos hsent]
    exact .rreqKnown hop hty hsent
  rw [if_neg hsent]
  by_cases hself : isSelfDest h p.destCanIpStr = 1
  · -- the update has recorded the way back, so the reply is not given up
    obtain ⟨e, he⟩ := exists_findKey_src rs h now s srcHw recvIf hty
    rw [if_pos hself, getRtblEntry_of_learn he]
    dsimp only
    rw [sendLlMsg_fst]
    exact .rreqDest hop hty hsent hself e he
  rw [if_neg hself]
  by_cases hnew : (s.latestRreq (srcKey rs p)).toInt < p.rreq.broadcastId
  · rw [if_pos hnew]
    rcases he : findKey (destKey rs p) (s.learn rs h now p srcHw recvIf).rtbl with _ | e
    · rw [if_pos (Or.inl (entryExistsForSrc_of_not_learn he))]
      dsimp only
      rw [broadcastLlMsg_fst]
      exact .rreqFlood hop hty hsent hself hnew (Or.inl he)
    by_cases hforced : s.forcedDiscovery = 1
    · rw [if_pos (Or.inr hforced)]
      dsimp only
      rw [broadcastLlMsg_fst]
      exact .rreqFlood hop hty hsent hself hnew (Or.inr hforced)
    · rw [if_neg (not_or.mpr ⟨entryExistsForSrc_of_learn he, hforced⟩), getRtblEntry_of_learn he]
      dsimp only
      rw [broadcastLlMsg_fst, sendLlMsg_fst, add_assoc]
      exact .rreqAnswer hop hty hsent hself hnew hforced e he
  · rw [if_neg hnew]
    exact .rreqDup hop hty hsent hself (not_lt.mp hnew)

lemma processRrep_handled (hop : p.WithinMaxh) (hty : p.type = .rrep) :
    Handled rs h io now s p srcHw recvIf (processRrep rs h res now s p srcHw recvIf).node
      (processRrep rs h res now s p srcHw recvIf).sent
      (processRrep rs h res now s p srcHw recvIf).unix := by
  dsimp only [processRrep]
  by_cases hself : isSelfSrc h p.srcCanIpStr = 1
  · rw [if_pos hself]
    by_cases hrd : s.routeDiscovered = 0
    · rw [if_pos hrd]
      dsimp only
      rw [sendPayload_fst]
      exact .rrepSource hop hty hself hrd
    · rw [if_neg hrd]
      exact .rrepLate hop hty hself hrd
  rw [if_neg hself]
  rcases he : findKey (srcKey rs p) (s.learn rs h now p srcHw recvIf).rtbl with _ | e
  · rw [if_pos (entryExistsForSrc_of_not_learn he)]
    exact .rrepLost hop hty hself he
  · rw [if_neg (entryExistsForSrc_of_learn he), getRtblEntry_of_learn he]
    dsimp only
    rw [sendLlMsg_fst]
    exact .rrepRelay hop hty hself e he

lemma processData_handled (hop : p.WithinMaxh) (hty : p.type = .data) :
    Handled rs h io now s p srcHw recvIf (processData rs h res io now s p srcHw recvIf).node
      (processData rs h res io now s p srcHw recvIf).sent
      (processData rs h res io now s p srcHw recvIf).unix := by
  dsimp only [processData]
  by_cases hsrc : isSelfSrc h p.srcCanIpStr = 0
  · rw [if_neg (not_not.mpr hsrc)]
    by_cases hself : isSelfDest h p.destCanIpStr = 0
    · rw [if_neg (not_not.mpr hself)]
      by_cases hout : p.srcDest = 1
      · have key : Handled rs h io now s p srcHw recvIf (s.learn rs h now p srcHw recvIf)
            (payloadFrames h.ifInfoList (s.learn rs h now p srcHw recvIf).rtbl p
              (destKey rs p)) [] :=
          .dataToServer hop hty hsrc hself hout
        rw [if_pos hout]
        split
        · next h0 =>
          rwa [payloadFrames_learn_of_missing h0] at key
        · dsimp only
          rw [sendPayload_fst]
          exact key
      by_cases hback : p.srcDest = -1
      · have key : Handled rs h io now s p srcHw recvIf (s.learn rs h now p srcHw recvIf)
            (payloadFrames h.ifInfoList (s.learn rs h now p srcHw recvIf).rtbl p
              (srcKey rs p)) [] :=
          .dataToClient hop hty hsrc hself hback
        rw [if_neg hout, if_pos hback]
        split
        · next h0 =>
          rwa [payloadFrames_learn_of_missing h0] at key
        · dsimp only
          rw [sendPayload_fst]
          exact key
      · rw [if_neg hout, if_neg hback]
        exact .dataStray hop hty hsrc hself ⟨hout, hback⟩
    · rw [if_pos hself]
      rcases hio : io.answer with _ | text
      · exact .dataTimeout hop hty hsrc hself hio
      · dsimp only
        rw [sendPayload_fst]
        exact .dataTurn hop hty hsrc hself text hio
  · rw [if_pos hsrc]
    exact .dataClient hop hty hsrc

/-- **Every call of `process_pack` takes one of the listed paths.** -/
theorem processPack_handled :
    Handled rs h io now s p srcHw recvIf (processPack rs h res io now s p srcHw recvIf).node
      (processPack rs h res io now s p srcHw recvIf).sent
      (processPack rs h res io now s p srcHw recvIf).unix := by
  rw [processPack]
  by_cases hop : p.WithinMaxh
  · rw [if_neg hop.not_over]
    rcases hty : p.type with _ | _ | _ | n
    · exact processRreq_handled hop hty
    · exact processRrep_handled hop hty
    · exact processData_handled hop hty
    · exact .unknown hop n hty
  · rw [if_pos (OdrPack.over_of_not hop)]
    exact .dropped hop

/-! ## The record of the source -/

/-- The record of the source changes when an RREQ is new. -/
lemma Handled.latestRreq {s' : Node} {fr : List Frame} {ux : List UnixSend}
    (H : Handled rs h io now s p srcHw recvIf s' fr ux) :
    s'.latestRreq =
      if p.type = .rreq ∧ p.WithinMaxh ∧ p.rreq.rrepSent ≠ 1 ∧
          isSelfDest h p.destCanIpStr ≠ 1 ∧
          (s.latestRreq (srcKey rs p)).toInt < p.rreq.broadcastId then
        Function.update s.latestRreq (srcKey rs p) (Int8.ofInt p.rreq.broadcastId)
      else s.latestRreq := by
  cases H with
  | dropped hop => rw [if_neg fun h' => hop h'.2.1]
  | rreqKnown hop hty hsent => rw [if_neg fun h' => h'.2.2.1 hsent]; rfl
  | rreqDest hop hty hsent hself => rw [if_neg fun h' => h'.2.2.2.1 hself]; rfl
  | rreqDup hop hty hsent hself hdup =>
    rw [if_neg fun h' => absurd h'.2.2.2.2 (not_lt.mpr hdup)]; rfl
  | rreqFlood hop hty hsent hself hnew => rw [if_pos ⟨hty, hop, hsent, hself, hnew⟩]; rfl
  | rreqAnswer hop hty hsent hself hnew => rw [if_pos ⟨hty, hop, hsent, hself, hnew⟩]; rfl
  | unknown hop n hty => rw [if_neg (by simp [hty])]
  | rrepSource hop hty => rw [if_neg (by simp [hty])]; rfl
  | rrepLate hop hty => rw [if_neg (by simp [hty])]; rfl
  | rrepLost hop hty => rw [if_neg (by simp [hty])]; rfl
  | rrepRelay hop hty => rw [if_neg (by simp [hty])]; rfl
  | dataClient hop hty => rw [if_neg (by simp [hty])]; rfl
  | dataTimeout hop hty => rw [if_neg (by simp [hty])]; rfl
  | dataTurn hop hty => rw [if_neg (by simp [hty])]; rfl
  | dataToServer hop hty => rw [if_neg (by simp [hty])]; rfl
  | dataToClient hop hty => rw [if_neg (by simp [hty])]; rfl
  | dataStray hop hty => rw [if_neg (by simp [hty])]; rfl

/-! ## The packets that leave -/

section

variable {s' : Node} {fr : List Frame} {ux : List UnixSend} {q : OdrPack}

/-- Every frame that a path sends carries one of the listed packets. -/
lemma Handled.leaves (H : Handled rs h io now s p srcHw recvIf s' fr ux) {g : Frame}
    (hg : g ∈ fr) : Leaves rs h now s p srcHw recvIf g.pack := by
  cases H with
  | rreqDest hop hty hsent hself =>
    rw [pack_of_mem_llFrames hg]
    exact .destReply hop hty hself
  | rreqFlood hop hty =>
    rw [pack_of_mem_bcastFrames hg]
    exact .reflood hop hty
  | rreqAnswer hop hty hsent hself hnew hforced e he =>
    rcases List.mem_append.mp hg with hg | hg
    · rw [pack_of_mem_llFrames hg]
      exact .tableReply hop hty e he
    · rw [pack_of_mem_bcastFrames hg]
      exact .answered hop hty e
  | rrepSource hop hty =>
    rw [pack_of_mem_payloadFrames hg]
    exact .request hop hty
  | rrepRelay hop hty =>
    rw [pack_of_mem_llFrames hg]
    exact .relayReply hop hty
  | dataTurn hop hty hsrc hself text =>
    rw [pack_of_mem_payloadFrames hg]
    exact .timeReply hop hty _
  | dataToServer hop hty =>
    rw [pack_of_mem_payloadFrames hg]
    exact .same hop hty
  | dataToClient hop hty =>
    rw [pack_of_mem_payloadFrames hg]
    exact .same hop hty
  | _ => simp at hg

lemma Leaves.src (hl : Leaves rs h now s p srcHw recvIf q) : q.srcCanIpStr = p.srcCanIpStr := by
  cases hl <;> rfl

lemma Leaves.dest (hl : Leaves rs h now s p srcHw recvIf q) :
    q.destCanIpStr = p.destCanIpStr := by
  cases hl <;> rfl

lemma Leaves.type_ne_other (hl : Leaves rs h now s p srcHw recvIf q) (n : ℤ) :
    q.type ≠ .other n := by
  cases hl with
  | destReply => exact fun h' => by cases h'
  | reflood hop hty => exact fun h' => by cases hty.symm.trans h'
  | tableReply => exact fun h' => by cases h'
  | answered => exact fun h' => by cases h'
  | relayReply hop hty => exact fun h' => by cases hty.symm.trans h'
  | request => exact fun h' => by cases h'
  | timeReply hop hty => exact fun h' => by cases hty.symm.trans h'
  | same hop hty => exact fun h' => by cases hty.symm.trans h'

/-- An RREQ only leaves a node that has read one, under the same broadcast id. -/
lemma Leaves.rreq (hl : Leaves rs h now s p srcHw recvIf q) (hty : q.type = .rreq) :
    p.type = .rreq ∧ q.rreq.broadcastId = p.rreq.broadcastId := by
  cases hl with
  | reflood hop hp => exact ⟨hp, rfl⟩
  | answered hop hp => exact ⟨hp, rfl⟩
  | destReply => cases hty
  | tableReply => cases hty
  | request => cases hty
  | relayReply hop hp => cases hp.symm.trans hty
  | timeReply hop hp => cases hp.symm.trans hty
  | same hop hp => cases hp.symm.trans hty

end

/-- The frames of a client's request: DATA along the table's entry, or a flood. -/
theorem mainRequest_sent {addr : UnAddr} {req : OdrReq} :
    (mainRequest rs h res s addr req).sent =
      if skipDiscovery rs s req then
        payloadFrames h.ifInfoList s.rtbl (dataPack rs h s req)
          (getIndexFromIp rs (requestDest rs s req))
      else bcastFrames h.ifInfoList (rreqPack rs h s req) (-1) := by
  dsimp only [mainRequest]
  split
  · rw [sendPayload_fst]; rfl
  · rw [broadcastLlMsg_fst]; rfl

end Odr
