/-
# Which frames are handled by their own bytes

For an address text that `inet_pton` does not read, or an address without a name that fits `host`,
the number that `get_index_from_ip` returns is made of what an earlier call has left on the stack.
Two contents of that memory tell a state apart wherever the number is used: it becomes the key of an
entry, it decides whether there is a route, and it selects the entry that a packet leaves along.

So exactly the frames that decide are handled by their own bytes (`own_bytes_iff`).  The
constructions use a name service that leaves every name empty, and one that has a name for the text
in question.
-/
import Odr.Local.StaleBytes

namespace Odr

open Buffer

/-- The name service that does not know any name, where the memory that is not initialised makes a
name for this text. -/
def naming (text : List Char) : Resolver :=
  ⟨fun t => if t = text then fun _ => 49 else fun _ => 0, fun _ => []⟩

lemma getIndexFromIp_naming_self (text : List Char) : getIndexFromIp (naming text) text = 1 := by
  rw [getIndexFromIp, naming]
  simp only [if_true]
  decide

lemma getIndexFromIp_naming_of_ne {t text : List Char} (hne : t ≠ text) :
    getIndexFromIp (naming text) t = -48 := by
  rw [getIndexFromIp, naming]
  simp only [if_neg hne]
  decide

/-- The packet in the buffer of `main` after a frame. -/
def LinkState.packOf (m : LinkState) (data : Bytes) : OdrPack :=
  packIn (recvInto m.buffer data ethPackSize)

/-- The address that the frame comes from. -/
def LinkState.srcHwOf (m : LinkState) (data : Bytes) : HwAddr :=
  hwAddrAt (recvInto m.buffer data ethPackSize) 6

/-- What `main` does with a frame that has its address texts, for the numbers of the two. -/
def linkAt (h : Host) (io : UnixIo) (clk : ℕ → ℤ) (m : LinkState) (data : Bytes) (i : ℤ)
    (srcIdx destIdx : ℤ) : Traced :=
  processPackAt h (fun _ => 1) ⟨0, 0, 0, 0⟩ srcIdx destIdx io clk m.node (m.packOf data)
    (m.srcHwOf data) i

section

variable {known : InAddr → Prop} {h : Host} {m : LinkState} {io : UnixIo} {clk : ℕ → ℤ}
  {data : Bytes} {i : ℤ} {text : List Char}

lemma agrees_naming (hnot : ¬Resolved known text) : mute.Agrees known (naming text) where
  getnameinfo t ht := by
    have hne : t ≠ text := fun heq => hnot (heq ▸ ht)
    simp only [mute, naming, if_neg hne]
  sockNtop _ _ _ := rfl

lemma mainLink_eq_linkAt (rs : Resolver) (hown : 70 ≤ data.length) :
    (mainLink rs h (fun _ => 1) ⟨0, 0, 0, 0⟩ io clk m (some (data, i))).2 =
      linkAt h io clk m data i (getIndexFromIp rs (textAt data 33))
        (getIndexFromIp rs (textAt data 18)) := by
  simp only [mainLink, processBuffer, LinkState.bufferAfter, LinkState.recvIfAfter]
  rw [textAt_recvInto (by omega) (by decide), textAt_recvInto (by omega) (by decide)]
  rfl

lemma mainLink_node {rs : Resolver} {res : ℕ → ℤ} {junk : RtblRead} {rx : Received} :
    (mainLink rs h res junk io clk m rx).1.node = (mainLink rs h res junk io clk m rx).2.out.node :=
  rfl

/-- A text without a number tells a state apart in which two numbers make a difference. -/
lemma not_ownBytes_of_linkAt (io : UnixIo) (clk : ℕ → ℤ) (hown : 70 ≤ data.length)
    (hnot : ¬Resolved known text) (hm : MainReach known mute h m)
    (hdiff : ¬(linkAt h io clk m data i (-48) (-48)).SameEffect
      (linkAt h io clk m data i (getIndexFromIp (naming text) (textAt data 33))
        (getIndexFromIp (naming text) (textAt data 18)))) :
    ¬OwnBytes known (some (data, i)) := by
  intro hownb
  have hsame := hownb mute (naming text) h (fun _ => 1) ⟨0, 0, 0, 0⟩ ⟨0, 0, 0, 0⟩ io clk m m
    (agrees_naming hnot) hm hm rfl rfl
  rw [mainLink_eq_linkAt mute hown, mainLink_eq_linkAt (naming text) hown] at hsame
  exact hdiff hsame

end

/-! ## The table that is left -/

section

variable {h : Host} {res : ℕ → ℤ} {junk : RtblRead} {srcIdx destIdx recvIf sp : ℤ} {io : UnixIo}
  {clk : ℕ → ℤ} {t : Rtbl} {s : Node} {p : OdrPack} {srcHw : HwAddr} {e : RtblEntry}

lemma rtbl_packAt :
    (packAt h res junk srcIdx destIdx io t s p recvIf).out.node.rtbl = t := by
  rw [packAt]
  rcases p.type with _ | _ | _ | n
  · dsimp only [rreqAt]
    split_ifs <;> rfl
  · dsimp only [rrepAt]
    split_ifs <;> rfl
  · dsimp only [dataAt]
    split_ifs
    · rfl
    · rcases io.answer with _ | text
      · rfl
      · rfl
    all_goals rfl
  · rfl

lemma rtbl_processPackAt (hhop : p.WithinMaxh) :
    (processPackAt h res junk srcIdx destIdx io clk s p srcHw recvIf).out.node.rtbl
      = clockedUpdateAt srcIdx destIdx h.sp clk p srcHw recvIf s.rtbl := by
  rw [processPackAt_of_within hhop, rtbl_packAt]

/-- An RREQ that wants an answer, at a machine with one route, to its source. -/
lemma clockedUpdateAt_rreq_singleton (hty : p.type = .rreq) (hsent : p.rreq.rrepSent ≠ 1)
    (hkey : e.key = srcIdx) (hif : e.ifNo = recvIf) :
    ∃ e', clockedUpdateAt srcIdx destIdx sp clk p srcHw recvIf [e] = [e'] ∧ e'.key = srcIdx ∧
      e'.ifNo = recvIf := by
  have hex : entryExistsForSrc srcIdx [e] = 1 :=
    entryExistsForSrc_eq_one_iff.mpr ⟨e, by rw [findKey_cons, if_pos hkey]⟩
  rw [clockedUpdateAt, hty]
  dsimp only
  rw [clockedOrAdd, if_pos hex, if_neg hsent, ite_self]
  obtain ⟨o, ho⟩ : ∃ o : Offer, o = ⟨srcIdx, p.srcCanIpStr, srcHw, recvIf, p.rreq.hop, p.rreq.hop,
      clk 0⟩ := ⟨_, rfl⟩
  obtain ⟨e', heq, hkey', hif'⟩ : ∃ e', (clockedLoop sp o clk 0 [e]).1 = [e'] ∧ e'.key = e.key ∧
      e'.ifNo = e.ifNo := clockedLoop_singleton (by rw [ho, hkey]) (by rw [ho, hif])
  rw [← ho]
  exact ⟨e', heq, hkey'.trans hkey, hif'.trans hif⟩

/-- DATA keeps the keys of the table. -/
lemma map_key_clockedUpdateAt_data (hty : p.type = .data) :
    (clockedUpdateAt srcIdx destIdx sp clk p srcHw recvIf t).map RtblEntry.key
      = t.map RtblEntry.key := by
  rw [clockedUpdateAt, hty]
  dsimp only
  split_ifs
  all_goals simp only [map_key_clockedLoop]

/-- DATA at a machine without a route for the end that it comes from changes nothing. -/
lemma clockedUpdateAt_data_of_ne (hty : p.type = .data) (hsrc : p.srcDest = 1 → srcIdx ≠ e.key)
    (hdest : p.srcDest = -1 → destIdx ≠ e.key) :
    clockedUpdateAt srcIdx destIdx sp clk p srcHw recvIf [e] = [e] := by
  have hnot : ∀ {key : ℤ}, key ≠ e.key → entryExistsForSrc key [e] ≠ 1 := by
    intro key hne
    rw [entryExistsForSrc_ne_one, findKey_cons, if_neg hne.symm, findKey_nil]
  have hto : ¬(entryExistsForSrc srcIdx [e] = 1 ∧ p.srcDest = 1) :=
    fun hc => hnot (hsrc hc.2) hc.1
  have hback : ¬(entryExistsForSrc destIdx [e] = 1 ∧ p.srcDest = -1) :=
    fun hc => hnot (hdest hc.2) hc.1
  rw [clockedUpdateAt, hty]
  simp only [if_neg hto, if_neg hback, if_neg Bool.false_ne_true]

/-- DATA renews a stale route to the end that it comes from. -/
lemma clockedUpdateAt_data_of_stale (hty : p.type = .data)
    (hway : p.srcDest = 1 ∨ p.srcDest = -1) (hkey : e.key = srcIdx) (hst : clk 0 - e.ts > sp) :
    ∃ e', clockedUpdateAt srcIdx srcIdx sp clk p srcHw recvIf [e] = [e'] ∧ e'.ts = clk 1 := by
  have hex : entryExistsForSrc srcIdx [e] = 1 :=
    entryExistsForSrc_eq_one_iff.mpr ⟨e, by rw [findKey_cons, if_pos hkey]⟩
  rw [clockedUpdateAt, hty]
  rcases hway with hway | hway
  · simp only [hex, hway, and_self, if_true, clockedLoop, if_pos hkey, if_pos hst]
    exact ⟨_, rfl, rfl⟩
  · simp only [hex, hway, and_self, if_true, one_ne_neg_one.symm, and_false, if_false,
      Bool.false_eq_true, clockedLoop, if_pos hkey, if_pos hst]
    exact ⟨_, rfl, rfl⟩

/-! ## What is sent -/

/-- An RREP stays at a machine whose only route is to its destination. -/
lemma sent_rrep_of_ne (hty : p.type = .rrep) (hhop : p.WithinMaxh)
    (hself : isSelfSrc h p.srcCanIpStr ≠ 1) (hs : s.rtbl = []) (hne : srcIdx ≠ destIdx) :
    (processPackAt h res junk srcIdx destIdx io clk s p srcHw recvIf).out.sent = [] := by
  obtain ⟨e, ht, hkey, -⟩ := clockedUpdateAt_rrep_nil hty srcIdx destIdx h.sp clk srcHw recvIf
  have hex : entryExistsForSrc srcIdx [e] = 0 := by
    rw [entryExistsForSrc_eq_zero, findKey_cons, if_neg (hkey ▸ hne.symm), findKey_nil]
  rw [processPackAt_of_within hhop, hs, ht, packAt, hty]
  dsimp only [rrepAt]
  rw [if_neg hself, if_pos hex]

/-- An RREQ that is new at a machine on the way which has a route to its destination. -/
lemma rreqAt_of_route (hsent : p.rreq.rrepSent ≠ 1) (hself : isSelfDest h p.destCanIpStr ≠ 1)
    (hnew : (s.latestRreq srcIdx).toInt < p.rreq.broadcastId) (hforced : s.forcedDiscovery ≠ 1)
    (he : findKey destIdx t = some e) :
    (rreqAt h res junk srcIdx destIdx t s p recvIf).out.node = { s with
        rtbl := t
        latestRreq := Function.update s.latestRreq srcIdx (Int8.ofInt p.rreq.broadcastId) } ∧
      ((∀ k, 0 ≤ res k) → (rreqAt h res junk srcIdx destIdx t s p recvIf).out.ret ≠ -1) ∧
      ∃ q fs, (rreqAt h res junk srcIdx destIdx t s p recvIf).out.sent =
        llFrames h.ifInfoList q e.nextHopHwaddr e.ifNo ++ fs := by
  have hflood : ¬(entryExistsForSrc destIdx t = 0 ∨ s.forcedDiscovery = 1) :=
    not_or.mpr ⟨entryExistsForSrc_ne_zero.mpr ⟨e, he⟩, hforced⟩
  dsimp only [rreqAt]
  rw [if_neg hsent, if_neg hself, if_pos hnew, if_neg hflood,
    if_neg (getRtblEntryInto_ret_ne he _), getRtblEntryInto_of_some he]
  refine ⟨rfl, fun hres => broadcastLlMsg_ne hres _ _, ?_⟩
  dsimp only
  rw [broadcastLlMsg_fst, sendLlMsg_fst, List.nil_append]
  exact ⟨_, _, rfl⟩

/-- Without such a route an RREQ that came over the only interface goes nowhere. -/
lemma sent_rreqAt_of_ne (hsent : p.rreq.rrepSent ≠ 1) (hself : isSelfDest h p.destCanIpStr ≠ 1)
    {a : HwAddr} (hifs : h.ifInfoList = [⟨a, recvIf⟩]) (hex : entryExistsForSrc destIdx t = 0) :
    (rreqAt h res junk srcIdx destIdx t s p recvIf).out.sent = [] := by
  dsimp only [rreqAt]
  rw [if_neg hsent, if_neg hself, if_pos (Or.inl hex)]
  split
  · dsimp only
    rw [broadcastLlMsg_fst, hifs]
    simp [bcastFrames]
  · rfl

/-- DATA stays at a machine on the way that has no route to the end it goes to. -/
lemma sent_data_of_ne (hty : p.type = .data) (hhop : p.WithinMaxh)
    (hsrc : isSelfSrc h p.srcCanIpStr = 0) (hdest : isSelfDest h p.destCanIpStr = 0)
    (hs : s.rtbl = [e]) (hto : p.srcDest = 1 → destIdx ≠ e.key)
    (hback : p.srcDest = -1 → srcIdx ≠ e.key) :
    (processPackAt h res junk srcIdx destIdx io clk s p srcHw recvIf).out.sent = [] := by
  have hkeys : ∀ {key : ℤ}, key ≠ e.key → entryExistsForSrc key
      (clockedUpdateAt srcIdx destIdx h.sp clk p srcHw recvIf s.rtbl) = 0 := by
    intro key hne
    rw [entryExistsForSrc_eq_zero, findKey_eq_none]
    rintro e' he' rfl
    have hmem := List.mem_map_of_mem (f := RtblEntry.key) he'
    rw [map_key_clockedUpdateAt_data hty, hs] at hmem
    exact hne (List.mem_singleton.mp hmem)
  rw [processPackAt_of_within hhop, packAt, hty]
  dsimp only [dataAt]
  rw [if_neg (not_not.mpr hsrc), if_neg (not_not.mpr hdest)]
  split
  · next hway => rw [if_pos (hkeys (hto hway))]
  split
  · next hway => rw [if_pos (hkeys (hback hway))]
  · rfl

/-- The answer of the time server leaves along the route to the source, if there is one. -/
lemma sent_data_turn (hty : p.type = .data) (hhop : p.WithinMaxh)
    (hsrc : isSelfSrc h p.srcCanIpStr = 0) (hdest : isSelfDest h p.destCanIpStr ≠ 0)
    {text : Bytes} (hanswer : io.answer = some text) (hto : p.srcDest ≠ 1) (hback : p.srcDest ≠ -1)
    (hs : s.rtbl = [e]) {a : HwAddr} (hifs : h.ifInfoList = [⟨a, recvIf⟩])
    (hif : e.ifNo = recvIf) :
    (processPackAt h res junk srcIdx destIdx io clk s p srcHw recvIf).out.sent = [] ↔
      e.key ≠ srcIdx := by
  have ht : clockedUpdateAt srcIdx destIdx h.sp clk p srcHw recvIf s.rtbl = [e] := by
    rw [hs]
    exact clockedUpdateAt_data_of_ne hty (fun hc => absurd hc hto) fun hc => absurd hc hback
  rw [processPackAt_of_within hhop, packAt, hty, ht]
  dsimp only [dataAt]
  rw [if_neg (not_not.mpr hsrc), if_pos hdest, hanswer]
  dsimp only
  rw [sendPayload_fst, hifs, List.nil_append, payloadFrames]
  by_cases hkey : e.key = srcIdx
  · simp [hkey, hif, llFrames_singleton]
  · simp [hkey]

end

/-! ## States before the frame -/

/-- `main` at the start, with an empty buffer. -/
def blankMain : LinkState := mainStart (.replicate ethPackSize 0)

lemma mainReach_blankMain (known : InAddr → Prop) (h : Host) : MainReach known mute h blankMain :=
  mainReach_start known mute h List.length_replicate

/-- The only route of `main` after an RREQ that only leaves a route. -/
def onlyRoute (i : ℤ) : RtblEntry := ⟨-48, .cut [], 0, i, 0, 0⟩

/-- `main` after such an RREQ. -/
def routeMain (i : ℤ) : LinkState :=
  ⟨{ Lab.freshNode with rtbl := [onlyRoute i] }, routeFrame (bytesOfInt 1), i⟩

lemma mainReach_routeMain (known : InAddr → Prop) (self : CanIp) (i : ℤ) :
    MainReach known mute (spur true self i) (routeMain i) :=
  mainReach_routeFrame known self i (length_bytesOfInt 1)

/-- An RREQ with the number 128, which is the least `char`. -/
def floodFrame : Bytes := .replicate 54 0 ++ bytesOfInt 128 ++ .replicate 88 0

/-- After such a frame there is a route, and every number above -128 is new. -/
lemma exists_mainReach_floodFrame (known : InAddr → Prop) (i : ℤ) :
    ∃ m e, MainReach known mute (spur false (.cut []) i) m ∧ m.node.rtbl = [e] ∧ e.key = -48 ∧
      e.ifNo = i ∧ (m.node.latestRreq (-48)).toInt = -128 ∧ m.node.forcedDiscovery = 0 := by
  have hlen : floodFrame.length = ethPackSize := rfl
  have hwithin : (packIn floodFrame).WithinMaxh := by
    constructor
    · decide +kernel
    · decide +kernel
  have hty : (packIn floodFrame).type = .rreq := by decide +kernel
  have hsent : (packIn floodFrame).rreq.rrepSent ≠ 1 := by decide +kernel
  obtain ⟨e, ht, hkey, hif⟩ := clockedUpdateAt_rreq_nil hty (-48) (-48) 5 (fun _ => 0)
    (hwAddrAt floodFrame 6) i
  have he : findKey (-48) [e] = some e := by rw [findKey_cons, if_pos hkey]
  have hlink : (mainLink mute (spur false (.cut []) i) (fun _ => 1) ⟨0, 0, 0, 0⟩
      (Lab.answering []) (fun _ => 0) blankMain (some (floodFrame, i))).2 =
        rreqAt (spur false (.cut []) i) (fun _ => 1) ⟨0, 0, 0, 0⟩ (-48) (-48) [e] Lab.freshNode
          (packIn floodFrame) i := by
    rw [mainLink, blankMain, bufferAfter_of_length List.length_replicate hlen]
    dsimp only [processBuffer]
    rw [getIndexFromIp_mute, getIndexFromIp_mute, processPackAt_of_within hwithin, packAt, hty]
    change rreqAt _ _ _ _ _ (clockedUpdateAt (-48) (-48) 5 _ _ _ i []) Lab.freshNode _ i = _
    rw [ht]
  obtain ⟨hnode, hret, -⟩ := rreqAt_of_route hsent
    (show isSelfDest (spur false (.cut []) i) (packIn floodFrame).destCanIpStr ≠ 1 from
      one_ne_neg_one ∘ Eq.symm)
    (show (Lab.freshNode.latestRreq (-48)).toInt < (packIn floodFrame).rreq.broadcastId by
      decide +kernel)
    (by decide) he
  rw [← hlink] at hnode hret
  have hmain := MainReach.link (.refl known mute) (fun _ => 1) ⟨0, 0, 0, 0⟩ (Lab.answering [])
    (fun _ => 0) (some (floodFrame, i)) (mainReach_blankMain known _)
    (hret fun _ => zero_le_one)
  rw [← mainLink_node] at hnode
  refine ⟨_, e, hmain, ?_, hkey, hif, ?_, ?_⟩
  · rw [hnode]
  · rw [hnode]
    dsimp only
    rw [Function.update_self]
    decide +kernel
  · rw [hnode]
    rfl

/-! ## One text without a number -/

section

variable {known : InAddr → Prop} {data : Bytes} {i : ℤ} (hown : 70 ≤ data.length)
  (hhop : intAt data 50 ≤ maxh ∧ intAt data 66 ≤ maxh)

include hown

lemma type_packOf (m : LinkState) : (m.packOf data).type = .ofInt (intAt data 14) :=
  type_recvInto hown

lemma srcCanIpStr_packOf (m : LinkState) :
    (m.packOf data).srcCanIpStr = .cut (textAt data 33) := by
  rw [LinkState.packOf, packIn_srcCanIpStr, textAt_recvInto (by omega) (by decide)]

lemma destCanIpStr_packOf (m : LinkState) :
    (m.packOf data).destCanIpStr = .cut (textAt data 18) := by
  rw [LinkState.packOf, packIn_destCanIpStr, textAt_recvInto (by omega) (by decide)]

omit hown in
lemma srcDest_packOf (hwhole : ethPackSize ≤ data.length) (m : LinkState) :
    (m.packOf data).srcDest = intAt data 142 := by
  rw [LinkState.packOf, packIn_srcDest, intAt_recvInto hwhole (by decide)]

include hhop

lemma withinMaxh_packOf (m : LinkState) : (m.packOf data).WithinMaxh :=
  (withinMaxh_recvInto hown).mpr hhop

lemma rtbl_linkAt {h : Host} {io : UnixIo} {clk : ℕ → ℤ} {m : LinkState} {srcIdx destIdx : ℤ} :
    (linkAt h io clk m data i srcIdx destIdx).out.node.rtbl =
      clockedUpdateAt srcIdx destIdx h.sp clk (m.packOf data) (m.srcHwOf data) i m.node.rtbl :=
  rtbl_processPackAt (withinMaxh_packOf hown hhop m)

/-- A number that becomes the key of the first entry must be known. -/
lemma not_ownBytes_of_key {text : List Char} (hnot : ¬Resolved known text) (key : ℤ → ℤ → ℤ)
    (hadd : ∀ srcIdx destIdx sp clk, ∃ e, clockedUpdateAt srcIdx destIdx sp clk
      (blankMain.packOf data) (blankMain.srcHwOf data) i [] = [e] ∧ e.key = key srcIdx destIdx)
    (hkey : key (-48) (-48) ≠ key (getIndexFromIp (naming text) (textAt data 33))
      (getIndexFromIp (naming text) (textAt data 18))) : ¬OwnBytes known (some (data, i)) := by
  refine not_ownBytes_of_linkAt (Lab.answering []) (fun _ => 0) hown hnot
    (mainReach_blankMain known (spur false (.cut []) i)) fun hsame => ?_
  have ht := congrArg Node.rtbl hsame.node
  rw [rtbl_linkAt hown hhop, rtbl_linkAt hown hhop] at ht
  obtain ⟨e, he, hmute⟩ := hadd (-48) (-48) 5 fun _ => 0
  obtain ⟨e', he', hnaming⟩ := hadd (getIndexFromIp (naming text) (textAt data 33))
    (getIndexFromIp (naming text) (textAt data 18)) 5 fun _ => 0
  have heq := congrArg RtblEntry.key (List.singleton_injective ((he.symm.trans ht).trans he'))
  rw [hmute, hnaming] at heq
  exact hkey heq

/-- The number of the source of an RREQ becomes the key of an entry. -/
lemma not_ownBytes_of_rreq_src (hty : .ofInt (intAt data 14) = PackType.rreq)
    (hnot : ¬Resolved known (textAt data 33)) : ¬OwnBytes known (some (data, i)) := by
  refine not_ownBytes_of_key hown hhop hnot (fun srcIdx _ => srcIdx)
    (fun srcIdx destIdx sp clk => ?_) ?_
  · obtain ⟨e, he, hkey, -⟩ := clockedUpdateAt_rreq_nil ((type_packOf hown blankMain).trans hty)
      srcIdx destIdx sp clk (blankMain.srcHwOf data) i
    exact ⟨e, he, hkey⟩
  · rw [getIndexFromIp_naming_self]
    decide

/-- So does that of the destination of an RREP. -/
lemma not_ownBytes_of_rrep_dest (hty : .ofInt (intAt data 14) = PackType.rrep)
    (hnot : ¬Resolved known (textAt data 18)) : ¬OwnBytes known (some (data, i)) := by
  refine not_ownBytes_of_key hown hhop hnot (fun _ destIdx => destIdx)
    (fun srcIdx destIdx sp clk => ?_) ?_
  · obtain ⟨e, he, hkey, -⟩ := clockedUpdateAt_rrep_nil ((type_packOf hown blankMain).trans hty)
      srcIdx destIdx sp clk (blankMain.srcHwOf data) i
    exact ⟨e, he, hkey⟩
  · rw [getIndexFromIp_naming_self]
    decide

/-- The number of the destination of an RREQ decides whether there is a route. -/
lemma not_ownBytes_of_rreq_dest (hty : .ofInt (intAt data 14) = PackType.rreq)
    (hsent : intAt data 62 ≠ 1) (hid : -128 < intAt data 54)
    (hsrc : Resolved known (textAt data 33)) (hnot : ¬Resolved known (textAt data 18)) :
    ¬OwnBytes known (some (data, i)) := by
  obtain ⟨m, e, hm, hrtbl, hkey, hif, hlatest, hforced⟩ := exists_mainReach_floodFrame known i
  refine not_ownBytes_of_linkAt (Lab.answering []) (fun _ => 0) hown hnot hm fun hsame => ?_
  have hne : textAt data 33 ≠ textAt data 18 := fun heq => hnot (heq ▸ hsrc)
  have htype := (type_packOf hown m).trans hty
  have hsent' : (m.packOf data).rreq.rrepSent ≠ 1 := by
    rwa [LinkState.packOf, packIn_rrepSent, intAt_recvInto (by omega) (by decide)]
  have hnew : (m.node.latestRreq (-48)).toInt < (m.packOf data).rreq.broadcastId := by
    rwa [hlatest, LinkState.packOf, packIn_broadcastId, intAt_recvInto (by omega) (by decide)]
  have hself : isSelfDest (spur false (.cut []) i) (m.packOf data).destCanIpStr ≠ 1 :=
    one_ne_neg_one ∘ Eq.symm
  -- the update leaves the one route, and the number of the destination is asked for
  have hrun : ∀ d, ∃ e', e'.key = -48 ∧ e'.ifNo = i ∧
      linkAt (spur false (.cut []) i) (Lab.answering []) (fun _ => 0) m data i (-48) d =
        rreqAt (spur false (.cut []) i) (fun _ => 1) ⟨0, 0, 0, 0⟩ (-48) d [e'] m.node
          (m.packOf data) i := by
    intro d
    obtain ⟨e', ht, hkey', hif'⟩ : ∃ e', clockedUpdateAt (-48) d 5 (fun _ => 0) (m.packOf data)
        (m.srcHwOf data) i [e] = [e'] ∧ e'.key = -48 ∧ e'.ifNo = i :=
      clockedUpdateAt_rreq_singleton htype hsent' hkey hif
    refine ⟨e', hkey', hif', ?_⟩
    rw [linkAt, processPackAt_of_within (withinMaxh_packOf hown hhop m), hrtbl, packAt, htype]
    exact congrArg (fun t => rreqAt _ _ _ _ _ t _ _ _) ht
  obtain ⟨e₁, hkey₁, hif₁, hrun₁⟩ := hrun (-48)
  obtain ⟨e₂, hkey₂, -, hrun₂⟩ := hrun 1
  have he₁ : findKey (-48) [e₁] = some e₁ := by rw [findKey_cons, if_pos hkey₁]
  have hex₂ : entryExistsForSrc 1 [e₂] = 0 := by
    rw [entryExistsForSrc_eq_zero, findKey_cons, hkey₂]
    rfl
  have heq := hsame.sent
  rw [getIndexFromIp_naming_of_ne hne, getIndexFromIp_naming_self, hrun₁, hrun₂,
    sent_rreqAt_of_ne hsent' hself rfl hex₂] at heq
  obtain ⟨-, -, q, fs, hfs⟩ := rreqAt_of_route hsent' hself hnew (by rw [hforced]; decide) he₁
  rw [hfs, hif₁, show (spur false (.cut []) i).ifInfoList = [⟨1, i⟩] from rfl,
    llFrames_singleton] at heq
  exact List.cons_ne_nil _ _ heq

/-- And so does that of the source of an RREP. -/
lemma not_ownBytes_of_rrep_src (hty : .ofInt (intAt data 14) = PackType.rrep)
    (hdest : Resolved known (textAt data 18)) (hnot : ¬Resolved known (textAt data 33)) :
    ¬OwnBytes known (some (data, i)) := by
  refine not_ownBytes_of_linkAt (Lab.answering []) (fun _ => 0) hown hnot
    (mainReach_blankMain known (spur false (.cut []) i)) fun hsame => ?_
  have hne : textAt data 18 ≠ textAt data 33 := fun heq => hnot (heq ▸ hdest)
  have hwithin := withinMaxh_packOf hown hhop blankMain
  have htype := (type_packOf hown blankMain).trans hty
  have heq := hsame.sent
  rw [getIndexFromIp_naming_of_ne hne, getIndexFromIp_naming_self] at heq
  obtain ⟨f, hf, -⟩ : ∃ f, (linkAt (spur false (.cut []) i) (Lab.answering []) (fun _ => 0)
      blankMain data i (-48) (-48)).out.sent = [f] ∧
        f.pack.srcDest = (blankMain.packOf data).srcDest :=
    sent_rrep htype hwithin (one_ne_neg_one ∘ Eq.symm) rfl rfl
  have hnone : (linkAt (spur false (.cut []) i) (Lab.answering []) (fun _ => 0) blankMain data i 1
      (-48)).out.sent = [] :=
    sent_rrep_of_ne htype hwithin (one_ne_neg_one ∘ Eq.symm) rfl (by decide)
  exact List.cons_ne_nil _ _ (hf.symm.trans (heq.trans hnone))

/-- DATA renews the route to the end that it comes from, whose number must be known. -/
lemma not_ownBytes_of_data_back (hwhole : ethPackSize ≤ data.length)
    (hty : .ofInt (intAt data 14) = PackType.data) {off : ℕ}
    (hway : intAt data 142 = 1 ∧ off = 33 ∨ intAt data 142 = -1 ∧ off = 18)
    (hnot : ¬Resolved known (textAt data off)) : ¬OwnBytes known (some (data, i)) := by
  refine not_ownBytes_of_linkAt (Lab.answering []) (fun _ => 100) hown hnot
    (mainReach_routeMain known (.cut []) i) fun hsame => ?_
  have htype := (type_packOf hown (routeMain i)).trans hty
  have hdir := srcDest_packOf hwhole (routeMain i)
  obtain ⟨e, he, hts⟩ : ∃ e, clockedUpdateAt (-48) (-48) 5 (fun _ => 100)
      ((routeMain i).packOf data) ((routeMain i).srcHwOf data) i [onlyRoute i] = [e] ∧
        e.ts = 100 :=
    clockedUpdateAt_data_of_stale htype (hdir ▸ hway.imp And.left And.left) rfl
      (show (100 : ℤ) - 0 > 5 by decide)
  have hkeep : clockedUpdateAt (getIndexFromIp (naming (textAt data off)) (textAt data 33))
      (getIndexFromIp (naming (textAt data off)) (textAt data 18)) 5 (fun _ => 100)
        ((routeMain i).packOf data) ((routeMain i).srcHwOf data) i [onlyRoute i] =
          [onlyRoute i] := by
    refine clockedUpdateAt_data_of_ne htype (fun hto => ?_) fun hback => ?_
    · rcases hway with ⟨-, rfl⟩ | ⟨hb, -⟩
      · rw [getIndexFromIp_naming_self]
        exact (by decide : (1 : ℤ) ≠ -48)
      · exact absurd (hto.symm.trans (hdir.trans hb)) (by decide)
    · rcases hway with ⟨hb, -⟩ | ⟨-, rfl⟩
      · exact absurd (hback.symm.trans (hdir.trans hb)) (by decide)
      · rw [getIndexFromIp_naming_self]
        exact (by decide : (1 : ℤ) ≠ -48)
  have ht := congrArg Node.rtbl hsame.node
  rw [rtbl_linkAt hown hhop, rtbl_linkAt hown hhop] at ht
  have heq := List.singleton_injective ((he.symm.trans ht).trans hkeep)
  exact absurd (hts.symm.trans (congrArg RtblEntry.ts heq)) (show (100 : ℤ) ≠ 0 by decide)

/-- The number of the end that DATA goes to decides whether there is a route. -/
lemma not_ownBytes_of_data_ahead (hwhole : ethPackSize ≤ data.length)
    (hty : .ofInt (intAt data 14) = PackType.data) {back ahead : ℕ}
    (hway : intAt data 142 = 1 ∧ back = 33 ∧ ahead = 18 ∨
      intAt data 142 = -1 ∧ back = 18 ∧ ahead = 33)
    (hback : Resolved known (textAt data back)) (hnot : ¬Resolved known (textAt data ahead)) :
    ¬OwnBytes known (some (data, i)) := by
  obtain ⟨self, hsrc, hdest⟩ := exists_canIp_ne (.cut (textAt data 33)) (.cut (textAt data 18))
  refine not_ownBytes_of_linkAt (Lab.answering []) (fun _ => 0) hown hnot
    (mainReach_routeMain known self i) fun hsame => ?_
  have hne : textAt data back ≠ textAt data ahead := fun heq => hnot (heq ▸ hback)
  have hwithin := withinMaxh_packOf hown hhop (routeMain i)
  have htype := (type_packOf hown (routeMain i)).trans hty
  have hdir := srcDest_packOf hwhole (routeMain i)
  have hself : isSelfSrc (spur true self i) ((routeMain i).packOf data).srcCanIpStr = 0 := by
    rw [srcCanIpStr_packOf hown]
    exact if_neg hsrc
  have hself' : isSelfDest (spur true self i) ((routeMain i).packOf data).destCanIpStr = 0 := by
    rw [destCanIpStr_packOf hown]
    exact if_neg hdest
  have hsome : (linkAt (spur true self i) (Lab.answering []) (fun _ => 0) (routeMain i) data i
      (-48) (-48)).out.sent ≠ [] :=
    sent_data htype hwithin hself hself' (hdir ▸ hway.imp And.left And.left) rfl rfl rfl rfl
  refine hsome (hsame.sent.trans (sent_data_of_ne htype hwithin hself hself' rfl (fun hto => ?_)
    fun hto => ?_))
  · rcases hway with ⟨-, -, rfl⟩ | ⟨hb, -⟩
    · rw [getIndexFromIp_naming_self]
      exact (by decide : (1 : ℤ) ≠ -48)
    · exact absurd (hto.symm.trans (hdir.trans hb)) (by decide)
  · rcases hway with ⟨hb, -⟩ | ⟨-, -, rfl⟩
    · exact absurd (hto.symm.trans (hdir.trans hb)) (by decide)
    · rw [getIndexFromIp_naming_self]
      exact (by decide : (1 : ℤ) ≠ -48)

/-- The number of the source of DATA decides where the answer of the time server goes. -/
lemma not_ownBytes_of_data_turn (hty : .ofInt (intAt data 14) = PackType.data)
    (hto : ¬slice data 142 4 <+: bytesOfInt 1) (hback : ¬slice data 142 4 <+: bytesOfInt (-1))
    (hnot : ¬Resolved known (textAt data 33))
    (hcut : CanIp.cut (textAt data 33) ≠ .cut (textAt data 18)) :
    ¬OwnBytes known (some (data, i)) := by
  refine not_ownBytes_of_linkAt (Lab.answering []) (fun _ => 0) hown hnot
    (mainReach_routeMain known (.cut (textAt data 18)) i) fun hsame => ?_
  have hwithin := withinMaxh_packOf hown hhop (routeMain i)
  have htype := (type_packOf hown (routeMain i)).trans hty
  have hdir : ∀ {x}, ¬slice data 142 4 <+: bytesOfInt x →
      ((routeMain i).packOf data).srcDest ≠ x := by
    rintro x hx rfl
    exact hx (prefix_of_srcDest (length_routeFrame (length_bytesOfInt 1)))
  have hself : isSelfSrc (spur true (.cut (textAt data 18)) i)
      ((routeMain i).packOf data).srcCanIpStr = 0 := by
    rw [srcCanIpStr_packOf hown]
    exact if_neg hcut.symm
  have hself' : isSelfDest (spur true (.cut (textAt data 18)) i)
      ((routeMain i).packOf data).destCanIpStr ≠ 0 := by
    rw [destCanIpStr_packOf hown]
    simp [isSelfDest, spur]
  have hturn : ∀ s d, (linkAt (spur true (.cut (textAt data 18)) i) (Lab.answering [])
      (fun _ => 0) (routeMain i) data i s d).out.sent = [] ↔ (onlyRoute i).key ≠ s :=
    fun s d => sent_data_turn htype hwithin hself hself' rfl (hdir hto) (hdir hback) rfl rfl rfl
  have hnone := (hturn (getIndexFromIp (naming (textAt data 33)) (textAt data 33))
    (getIndexFromIp (naming (textAt data 33)) (textAt data 18))).mpr (by
      rw [getIndexFromIp_naming_self]
      exact (by decide : (-48 : ℤ) ≠ 1))
  exact (hturn (-48) (-48)).mp (hsame.sent.trans hnone) rfl

/-! ## One type after the other -/

variable (hownb : OwnBytes known (some (data, i)))

include hownb

lemma decides_of_rreq (hty : .ofInt (intAt data 14) = PackType.rreq) : Decides known data := by
  have hsrc : Resolved known (textAt data 33) := by
    by_contra hnot
    exact not_ownBytes_of_rreq_src hown hhop hty hnot hownb
  by_cases hsent : intAt data 62 = 1
  · exact .replySent hown hty hsent hsrc
  rcases lt_or_ge data.length ethPackSize with hshort | hwhole
  · exact absurd hownb (not_ownBytes_of_rreq hshort hown hhop hty hsent)
  rcases le_or_gt (intAt data 54) (-128) with hid | hid
  · exact .neverNew hwhole hty hid hsrc
  refine .whole hwhole hsrc ?_
  by_contra hnot
  exact not_ownBytes_of_rreq_dest hown hhop hty hsent hid hsrc hnot hownb

lemma decides_of_rrep (hty : .ofInt (intAt data 14) = PackType.rrep) : Decides known data := by
  rcases lt_or_ge data.length ethPackSize with hshort | hwhole
  · exact absurd hownb (not_ownBytes_of_rrep hshort hown hhop hty)
  have hdest : Resolved known (textAt data 18) := by
    by_contra hnot
    exact not_ownBytes_of_rrep_dest hown hhop hty hnot hownb
  refine .whole hwhole ?_ hdest
  by_contra hnot
  exact not_ownBytes_of_rrep_src hown hhop hty hdest hnot hownb

/-- DATA that may be for one direction is whole, and so its direction is that. -/
lemma intAt_of_prefix (hty : .ofInt (intAt data 14) = PackType.data) {v : ℤ} (hv : v = 1 ∨ v = -1)
    (hpre : slice data 142 4 <+: bytesOfInt v) :
    ethPackSize ≤ data.length ∧ intAt data 142 = v := by
  have hwhole : ethPackSize ≤ data.length := by
    by_contra hshort
    have hdrop : slice data 142 4 = data.drop 142 := by
      refine List.take_of_length_le ?_
      rw [List.length_drop]
      simp only [ethPackSize] at hshort
      omega
    exact not_ownBytes_of_data (not_le.mp hshort) hown hhop hty hv (hdrop ▸ hpre) hownb
  refine ⟨hwhole, ?_⟩
  rw [intAt, hpre.eq_of_length (length_slice hwhole)]
  rcases hv with rfl | rfl
  · decide
  · decide

lemma decides_of_data (hty : .ofInt (intAt data 14) = PackType.data) : Decides known data := by
  have hends : ∀ {back ahead : ℕ}, ethPackSize ≤ data.length →
      (intAt data 142 = 1 ∧ back = 33 ∧ ahead = 18 ∨
        intAt data 142 = -1 ∧ back = 18 ∧ ahead = 33) →
      Resolved known (textAt data back) ∧ Resolved known (textAt data ahead) := by
    intro back ahead hwhole hway
    have hback : Resolved known (textAt data back) := by
      by_contra hnot
      exact not_ownBytes_of_data_back hown hhop hwhole hty
        (hway.imp (And.imp_right And.left) (And.imp_right And.left)) hnot hownb
    refine ⟨hback, ?_⟩
    by_contra hnot
    exact not_ownBytes_of_data_ahead hown hhop hwhole hty hway hback hnot hownb
  by_cases hto : slice data 142 4 <+: bytesOfInt 1
  · obtain ⟨hwhole, hdir⟩ := intAt_of_prefix hown hhop hownb hty (Or.inl rfl) hto
    obtain ⟨hsrc, hdest⟩ := hends hwhole (Or.inl ⟨hdir, rfl, rfl⟩)
    exact .whole hwhole hsrc hdest
  by_cases hback : slice data 142 4 <+: bytesOfInt (-1)
  · obtain ⟨hwhole, hdir⟩ := intAt_of_prefix hown hhop hownb hty (Or.inr rfl) hback
    obtain ⟨hdest, hsrc⟩ := hends hwhole (Or.inr ⟨hdir, rfl, rfl⟩)
    exact .whole hwhole hsrc hdest
  have hlen : 142 ≤ data.length := by
    by_contra hshort
    refine hto ?_
    rw [slice, List.drop_of_length_le (not_le.mp hshort).le, List.take_nil]
    exact List.nil_prefix
  refine .noWay hlen hty hto hback ?_
  by_contra hnot
  obtain ⟨hsrc, hcut⟩ := not_or.mp hnot
  exact not_ownBytes_of_data_turn hown hhop hty hto hback hsrc hcut hownb

end

/-- A whole frame that is dropped, with this value of `src_dest`. -/
def droppedFrame (d : UInt8) : Bytes :=
  .replicate 50 0 ++ bytesOfInt 16 ++ .replicate 88 0 ++ [d, 0, 0, 0]

lemma mainReach_droppedFrame (known : InAddr → Prop) (rs : Resolver) (h : Host) (d : UInt8) :
    MainReach known rs h ⟨Lab.freshNode, droppedFrame d, 2⟩ := by
  have hlen : (droppedFrame d).length = ethPackSize := by
    simp [droppedFrame, length_bytesOfInt, ethPackSize]
  have hbuf : (mainStart (.replicate ethPackSize 0)).bufferAfter (some (droppedFrame d, 2)) =
      droppedFrame d := bufferAfter_of_length List.length_replicate hlen 2
  have hhop : maxh < (packIn (droppedFrame d)).rreq.hop := by
    rw [packIn_rreqHop]
    simp [intAt, slice, droppedFrame, List.drop_append, List.take_append, length_bytesOfInt]
    decide
  have hlink := MainReach.link (.refl known rs) (fun _ => 1) ⟨0, 0, 0, 0⟩ (Lab.answering [])
    (fun _ => 0) (some (droppedFrame d, 2))
    (mainReach_start known rs h (b := List.replicate ethPackSize 0) List.length_replicate)
  simp only [mainLink, hbuf, processBuffer, processPackAt_of_over (Or.inl hhop)] at hlink
  rw [storePack_packIn hlen] at hlink
  exact hlink one_ne_neg_one

end Odr
