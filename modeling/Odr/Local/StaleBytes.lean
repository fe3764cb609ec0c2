/-
# What is behind a short frame

A short frame that does not decide is handled differently after different histories.  Whether it is
dropped, what its answer carries, or whether it goes on at all depends on the bytes that an earlier
frame has left behind its own.

The constructions use a machine with one interface and a name service that leaves every name
empty, so that all addresses have one number.
-/
import Odr.Local.ReceiveBuffer
import Odr.Local.ReturnCode

namespace Odr

open Buffer

/-- A machine with one interface. -/
def spur (hostnameOk : Bool) (self : CanIp) (i : ℤ) : Host := ⟨[⟨1, i⟩], hostnameOk, self, self, 5⟩

/-- A name service that does not know any name. -/
def mute : Resolver := ⟨fun _ _ => 0, fun _ => []⟩

/-- `main` at the start. -/
def mainStart (b : Bytes) : LinkState := ⟨Lab.freshNode, b, 1⟩

lemma mainReach_start (known : InAddr → Prop) (rs : Resolver) (h : Host) {b : Bytes}
    (hb : b.length = ethPackSize) : MainReach known rs h (mainStart b) :=
  .start (Lab.start_initial.1 (k := 1) 0) hb

/-! ## What is left in the buffer -/

/-- A whole frame is what is in the buffer then. -/
lemma bufferAfter_of_length {m : LinkState} (hbuf : m.buffer.length = ethPackSize) {data : Bytes}
    (hlen : data.length = ethPackSize) (i : ℤ) : m.bufferAfter (some (data, i)) = data := by
  rw [LinkState.bufferAfter, recvInto_of_le hbuf hlen.ge, ← hlen, List.take_length]

/-- What is behind a frame decides the sign of a field that ends there. -/
lemma intAt_recvInto_top {buf data : Bytes} {off : ℕ} (hbuf : buf.length = ethPackSize)
    (hlen : data.length ≤ off + 3) (hoff : off + 4 ≤ ethPackSize) {x : UInt8}
    (hx : buf[off + 3]? = some x) :
    (x = 127 → maxh < intAt (recvInto buf data ethPackSize) off) ∧
      (x = 128 → intAt (recvInto buf data ethPackSize) off < 0) := by
  refine intOfBytes_top (length_slice (by rwa [length_recvInto hbuf])) ?_
  rw [getElem?_slice (by decide), getElem?_recvInto (by omega) hlen, hx]

lemma intAt_replicate_127 {data : Bytes} {off : ℕ} (hlen : data.length ≤ off + 3)
    (hoff : off + 4 ≤ ethPackSize) :
    maxh < intAt (recvInto (.replicate ethPackSize 127) data ethPackSize) off :=
  (intAt_recvInto_top List.length_replicate hlen hoff
    (List.getElem?_replicate_of_lt (by omega))).1 rfl

lemma intAt_replicate_128 {data : Bytes} {off : ℕ} (hlen : data.length ≤ off + 3)
    (hoff : off + 4 ≤ ethPackSize) :
    intAt (recvInto (.replicate ethPackSize 128) data ethPackSize) off < 0 :=
  (intAt_recvInto_top List.length_replicate hlen hoff
    (List.getElem?_replicate_of_lt (by omega))).2 rfl

/-- A frame whose last bytes are those of the buffer leaves the buffer's. -/
lemma drop_recvInto {buf data : Bytes} {k : ℕ} (hlen : data.length ≤ ethPackSize)
    (hpre : data.drop k <+: buf.drop k) :
    (recvInto buf data ethPackSize).drop k = buf.drop k := by
  have hmax : data.length + (k - data.length) = k + (data.drop k).length := by
    rw [List.length_drop]
    omega
  rw [recvInto, List.take_of_length_le hlen, min_eq_right hlen, List.drop_append, List.drop_drop,
    hmax, ← List.drop_drop]
  exact List.prefix_append_drop hpre |>.symm

/-- An RREQ for the second node, cut off behind the hop count of the RREP header. -/
def shortRreq : Bytes :=
  let text : ℕ → Bytes := fun n =>
    strncpy (.replicate 15 0) ((Lab.ipText n).map fun c => UInt8.ofNat c.toNat) 15
  .replicate 18 0 ++ text 1 ++ text 0 ++ [0, 0] ++
    (bytesOfInt 1 ++ bytesOfInt 1 ++ bytesOfInt 0 ++ bytesOfInt 0) ++ bytesOfInt (-1)

/-! ## Packets on one interface -/

section

variable {h : Host} {res : ℕ → ℤ} {junk : RtblRead} {io : UnixIo} {clk : ℕ → ℤ}
  {srcIdx destIdx recvIf : ℤ} {s : Node} {p : OdrPack} {srcHw a : HwAddr} {e : RtblEntry}

lemma clockedOrAdd_nil (sp : ℤ) (o : Offer) (added : RtblEntry) (i : ℕ) :
    clockedOrAdd sp o added clk i [] = ([{ added with ts := clk i }], false, i + 1) :=
  if_neg (zero_ne_one (α := ℤ))

/-- A loop over one entry leaves one entry with the same key. -/
lemma clockedLoop_singleton {sp : ℤ} {o : Offer} {i : ℕ} (hkey : e.key = o.key)
    (hif : e.ifNo = o.ifIdx) :
    ∃ e', (clockedLoop sp o clk i [e]).1 = [e'] ∧ e'.key = e.key ∧ e'.ifNo = e.ifNo := by
  rw [clockedLoop, if_pos hkey]
  split
  · exact ⟨_, rfl, hkey.symm, hif.symm⟩
  · refine ⟨_, rfl, improve_key _ _, ?_⟩
    rw [RtblEntry.improve]
    split
    · exact hif.symm
    · rfl

/-- An RREQ at a machine without routes leaves the one to its source. -/
lemma clockedUpdateAt_rreq_nil (hty : p.type = .rreq) (srcIdx destIdx sp : ℤ) (clk : ℕ → ℤ)
    (srcHw : HwAddr) (recvIf : ℤ) :
    ∃ e, clockedUpdateAt srcIdx destIdx sp clk p srcHw recvIf [] = [e] ∧ e.key = srcIdx ∧
      e.ifNo = recvIf := by
  rw [clockedUpdateAt, hty]
  dsimp only
  rw [clockedOrAdd_nil, if_neg Bool.false_ne_true]
  split
  · -- the second pass finds the entry that the first one has left
    rw [clockedOrAdd, if_pos (by simp [entryExistsForSrc, Offer.entry])]
    exact clockedLoop_singleton rfl rfl
  · exact ⟨_, rfl, rfl, rfl⟩

/-- An RREP at a machine without routes leaves the one to its destination. -/
lemma clockedUpdateAt_rrep_nil (hty : p.type = .rrep) (srcIdx destIdx sp : ℤ) (clk : ℕ → ℤ)
    (srcHw : HwAddr) (recvIf : ℤ) :
    ∃ e, clockedUpdateAt srcIdx destIdx sp clk p srcHw recvIf [] = [e] ∧ e.key = destIdx ∧
      e.ifNo = recvIf := by
  rw [clockedUpdateAt, hty]
  dsimp only
  rw [clockedOrAdd_nil]
  exact ⟨_, rfl, rfl, rfl⟩

lemma llFrames_singleton (q : OdrPack) (hw : HwAddr) :
    llFrames [⟨a, recvIf⟩] q hw recvIf = [⟨hw, a, recvIf, q⟩] := by
  simp [llFrames]

/-- An RREQ at its destination is answered by one frame. -/
lemma sent_rreq (hty : p.type = .rreq) (hhop : p.WithinMaxh) (hsent : p.rreq.rrepSent ≠ 1)
    (hself : isSelfDest h p.destCanIpStr = 1) (hifs : h.ifInfoList = [⟨a, recvIf⟩])
    (hs : s.rtbl = []) :
    ∃ f, (processPackAt h res junk srcIdx destIdx io clk s p srcHw recvIf).out.sent = [f] ∧
      f.pack.srcDest = p.srcDest := by
  obtain ⟨e, ht, hkey, hif⟩ := clockedUpdateAt_rreq_nil hty srcIdx destIdx h.sp clk srcHw recvIf
  have he : findKey srcIdx [e] = some e := by rw [findKey_cons, if_pos hkey]
  rw [processPackAt_of_within hhop, hs, ht, packAt, hty]
  dsimp only [rreqAt]
  rw [if_neg hsent, if_pos hself, if_neg (getRtblEntryInto_ret_ne he junk)]
  dsimp only
  rw [getRtblEntryInto_of_some he, sendLlMsg_fst, hifs, hif, llFrames_singleton]
  exact ⟨_, rfl, rfl⟩

/-- An RREP goes on along the entry that it has just left, where all addresses have one number. -/
lemma sent_rrep (hty : p.type = .rrep) (hhop : p.WithinMaxh)
    (hself : isSelfSrc h p.srcCanIpStr ≠ 1) (hifs : h.ifInfoList = [⟨a, recvIf⟩])
    (hs : s.rtbl = []) :
    ∃ f, (processPackAt h res junk srcIdx srcIdx io clk s p srcHw recvIf).out.sent = [f] ∧
      f.pack.srcDest = p.srcDest := by
  obtain ⟨e, ht, hkey, hif⟩ := clockedUpdateAt_rrep_nil hty srcIdx srcIdx h.sp clk srcHw recvIf
  have he : findKey srcIdx [e] = some e := by rw [findKey_cons, if_pos hkey]
  have hex := entryExistsForSrc_ne_zero.mpr ⟨e, he⟩
  rw [processPackAt_of_within hhop, hs, ht, packAt, hty]
  dsimp only [rrepAt]
  rw [if_neg hself, if_neg hex, if_neg (getRtblEntryInto_ret_ne he junk)]
  dsimp only
  rw [getRtblEntryInto_of_some he, sendLlMsg_fst, hifs, hif, llFrames_singleton]
  exact ⟨_, rfl, rfl⟩

/-- DATA on its way leaves along the only entry. -/
lemma sent_data (hty : p.type = .data) (hhop : p.WithinMaxh)
    (hsrc : isSelfSrc h p.srcCanIpStr = 0) (hdest : isSelfDest h p.destCanIpStr = 0)
    (hway : p.srcDest = 1 ∨ p.srcDest = -1) (hifs : h.ifInfoList = [⟨a, recvIf⟩])
    (hs : s.rtbl = [e]) (hkey : e.key = srcIdx) (hif : e.ifNo = recvIf) :
    (processPackAt h res junk srcIdx srcIdx io clk s p srcHw recvIf).out.sent ≠ [] := by
  have hone : ∀ e' : RtblEntry, e'.key = e.key → entryExistsForSrc srcIdx [e'] = 1 := by
    intro e' hkey'
    exact entryExistsForSrc_eq_one_iff.mpr ⟨e', by rw [findKey_cons, if_pos (hkey'.trans hkey)]⟩
  -- both blocks of the update leave one entry with the same key
  obtain ⟨e', ht, hkey', hif'⟩ : ∃ e', clockedUpdateAt srcIdx srcIdx h.sp clk p srcHw recvIf [e]
      = [e'] ∧ e'.key = e.key ∧ e'.ifNo = e.ifNo := by
    rw [clockedUpdateAt, hty]
    dsimp only
    rcases hway with hway | hway
    · simp only [hway, hone e rfl, and_self, if_true, one_ne_neg_one, and_false, if_false, ite_self]
      exact clockedLoop_singleton hkey hif
    · simp only [hway, hone e rfl, and_self, if_true, one_ne_neg_one.symm, and_false, if_false,
        Bool.false_eq_true]
      exact clockedLoop_singleton hkey hif
  have hex : entryExistsForSrc srcIdx [e'] ≠ 0 := by
    rw [hone e' hkey']
    exact one_ne_zero
  have hpay : payloadFrames [⟨a, recvIf⟩] [e'] p srcIdx = [⟨e'.nextHopHwaddr, a, recvIf, p⟩] := by
    rw [payloadFrames, List.filter_cons_of_pos (by simpa using hkey'.trans hkey),
      List.filter_nil, List.flatMap_singleton, hif', hif, llFrames_singleton]
  rw [processPackAt_of_within hhop, hs, ht, packAt, hty]
  dsimp only [dataAt]
  rw [if_neg (not_not.mpr hsrc), if_neg (not_not.mpr hdest)]
  rcases hway with hway | hway
  · rw [if_pos hway, if_neg hex]
    dsimp only
    rw [sendPayload_fst, hifs, hpay]
    exact List.cons_ne_nil _ []
  · rw [if_neg (by rw [hway]; exact one_ne_neg_one.symm), if_pos hway, if_neg hex]
    dsimp only
    rw [sendPayload_fst, hifs, hpay]
    exact List.cons_ne_nil _ []

/-- A packet that is not dropped leaves a trace on a machine without a name and without
routes. -/
lemma trace_of_within (hhop : p.WithinMaxh) (hok : h.hostnameOk = false) (hs : s.rtbl = []) :
    let tr := processPackAt h res junk srcIdx destIdx io clk s p srcHw recvIf
    tr.out.node.rtbl ≠ [] ∨ tr.out.ret = -1 ∨ tr.out.unix ≠ [] := by
  intro tr
  have htr : tr = packAt h res junk srcIdx destIdx io
      (clockedUpdateAt srcIdx destIdx h.sp clk p srcHw recvIf []) s p recvIf := by
    rw [← hs]
    exact processPackAt_of_within hhop
  rw [htr]
  clear htr tr
  rcases hty : p.type with _ | _ | _ | n
  · obtain ⟨e, ht, -⟩ := clockedUpdateAt_rreq_nil hty srcIdx destIdx h.sp clk srcHw recvIf
    left
    rw [ht, packAt, hty]
    dsimp only [rreqAt]
    split_ifs <;> exact List.cons_ne_nil e []
  · obtain ⟨e, ht, -⟩ := clockedUpdateAt_rrep_nil hty srcIdx destIdx h.sp clk srcHw recvIf
    left
    rw [ht, packAt, hty]
    dsimp only [rrepAt]
    split_ifs <;> exact List.cons_ne_nil e []
  · -- without a name the host is the source of everything
    have hself : isSelfSrc h p.srcCanIpStr ≠ 0 := by simp [isSelfSrc, isSelfDest, hok]
    right
    right
    rw [packAt, hty]
    dsimp only [dataAt]
    rw [if_pos hself]
    exact List.cons_ne_nil _ []
  · right
    left
    rw [packAt, hty]

lemma sent_data_noWay (hty : p.type = .data) (hhop : p.WithinMaxh)
    (hsrc : isSelfSrc h p.srcCanIpStr = 0) (hdest : isSelfDest h p.destCanIpStr = 0)
    (hto : p.srcDest ≠ 1) (hback : p.srcDest ≠ -1) :
    (processPackAt h res junk srcIdx destIdx io clk s p srcHw recvIf).out.sent = [] := by
  rw [processPackAt_of_within hhop, packAt, hty]
  dsimp only [dataAt]
  rw [if_neg (not_not.mpr hsrc), if_neg (not_not.mpr hdest), if_neg hto, if_neg hback]

end

/-! ## A route before the frame -/

/-- An RREQ that only leaves a route, with these last bytes. -/
def routeFrame (tail : Bytes) : Bytes :=
  .replicate 62 0 ++ bytesOfInt 1 ++ .replicate 76 0 ++ tail

lemma length_routeFrame {tail : Bytes} (htail : tail.length = 4) :
    (routeFrame tail).length = ethPackSize := by
  simp [routeFrame, length_bytesOfInt, htail, ethPackSize]

lemma drop_routeFrame (tail : Bytes) : (routeFrame tail).drop 142 = tail := by
  rw [routeFrame, List.drop_left']
  rfl

lemma packIn_routeFrame (tail : Bytes) :
    packIn (routeFrame tail) = ⟨.rreq, .cut [], .cut [], ⟨0, 0, 0, 1⟩, ⟨0, 0, 0⟩,
      .replicate 64 0, intAt (routeFrame tail) 142⟩ := by
  simp [packIn, intAt, textAt, slice, routeFrame, List.drop_append, List.take_append,
    length_bytesOfInt]
  decide

lemma hwAddrAt_routeFrame (tail : Bytes) : hwAddrAt (routeFrame tail) 6 = 0 := by
  simp [hwAddrAt, slice, routeFrame]

/-- After such a frame there is a route, and the last bytes are in the buffer. -/
lemma mainReach_routeFrame (known : InAddr → Prop) (self : CanIp) (i : ℤ) {tail : Bytes}
    (htail : tail.length = 4) :
    MainReach known mute (spur true self i)
      ⟨{ Lab.freshNode with rtbl := [⟨-48, .cut [], 0, i, 0, 0⟩] }, routeFrame tail, i⟩ := by
  have hlen := length_routeFrame htail
  have hbuf : (mainStart (.replicate ethPackSize 0)).bufferAfter (some (routeFrame tail, i)) =
      routeFrame tail := bufferAfter_of_length List.length_replicate hlen i
  have hrun : processBuffer mute (spur true self i) (fun _ => 1) ⟨0, 0, 0, 0⟩ (Lab.answering [])
      (fun _ => 0) Lab.freshNode (routeFrame tail) i =
        ⟨⟨{ Lab.freshNode with rtbl := [⟨-48, .cut [], 0, i, 0, 0⟩] }, packIn (routeFrame tail), 0,
          [], []⟩, [], []⟩ := by
    rw [processBuffer, packIn_routeFrame, hwAddrAt_routeFrame]
    rfl
  have hlink := MainReach.link (.refl known mute) (fun _ => 1) ⟨0, 0, 0, 0⟩ (Lab.answering [])
    (fun _ => 0) (some (routeFrame tail, i))
    (mainReach_start known mute (spur true self i) (b := List.replicate ethPackSize 0)
      List.length_replicate)
  simp only [mainLink, hbuf] at hlink
  rw [show (mainStart (.replicate ethPackSize 0)).node = Lab.freshNode from rfl,
    LinkState.recvIfAfter, hrun] at hlink
  dsimp only at hlink
  rw [storePack_packIn hlen] at hlink
  exact hlink zero_ne_neg_one

/-! ## Frames that do not decide -/

lemma getIndexFromIp_mute (text : List Char) : getIndexFromIp mute text = -48 := rfl

section

variable {known : InAddr → Prop} {rx : Received} {data : Bytes} {i : ℤ}

/-- Whether a short frame is dropped depends on what is behind it. -/
lemma not_ownBytes_of_short
    (hrx : ∀ m : LinkState, m.bufferAfter rx = recvInto m.buffer data ethPackSize)
    (hlen : data.length < 70) (hhop : 54 ≤ data.length → intAt data 50 ≤ maxh) :
    ¬OwnBytes known rx := by
  intro hown
  have hsame := hown mute mute (spur false (.cut []) 1) (fun _ => 1) ⟨0, 0, 0, 0⟩ ⟨0, 0, 0, 0⟩
    (Lab.answering []) (fun _ => 0) (mainStart (.replicate ethPackSize 127))
    (mainStart (.replicate ethPackSize 128)) (.refl _ _)
    (mainReach_start _ _ _ List.length_replicate) (mainReach_start _ _ _ List.length_replicate)
    rfl rfl
  simp only [mainLink, processBuffer, hrx, mainStart] at hsame
  have hover : maxh < intAt (recvInto (.replicate ethPackSize 127) data ethPackSize) 66 :=
    intAt_replicate_127 (by omega) (by decide)
  have hwithin : (packIn (recvInto (.replicate ethPackSize 128) data ethPackSize)).WithinMaxh := by
    have hneg : ∀ {x : ℤ}, x < 0 → x ≤ maxh := fun hx => hx.le.trans (by decide)
    refine ⟨?_, hneg (intAt_replicate_128 (by omega) (by decide))⟩
    rcases lt_or_ge data.length 54 with hshort | hhas
    · exact hneg (intAt_replicate_128 (by omega) (by decide))
    · rw [packIn_rreqHop, intAt_recvInto hhas (by decide)]
      exact hhop hhas
  rw [processPackAt_of_over (Or.inr hover)] at hsame
  rcases trace_of_within (h := spur false (.cut []) 1) (s := Lab.freshNode) hwithin rfl rfl
    with htr | htr | htr
  · exact htr (congrArg Node.rtbl hsame.node.symm)
  · exact one_ne_neg_one (hsame.ret.trans htr)
  · exact htr hsame.unix.symm

variable (hlen : data.length < ethPackSize) (hown : 70 ≤ data.length)
  (hhop : intAt data 50 ≤ maxh ∧ intAt data 66 ≤ maxh)

include hlen in
/-- The two buffers give the packet different values of `src_dest`. -/
lemma srcDest_ne : (packIn (recvInto (.replicate ethPackSize 127) data ethPackSize)).srcDest ≠
    (packIn (recvInto (.replicate ethPackSize 128) data ethPackSize)).srcDest := by
  have hpos : maxh < (packIn (recvInto (.replicate ethPackSize 127) data ethPackSize)).srcDest :=
    intAt_replicate_127 (Nat.le_of_lt_succ hlen) (by decide)
  have hneg : (packIn (recvInto (.replicate ethPackSize 128) data ethPackSize)).srcDest < 0 :=
    intAt_replicate_128 (Nat.le_of_lt_succ hlen) (by decide)
  exact (hneg.trans (lt_trans (by decide) hpos)).ne'

include hlen hown hhop in
/-- The reply to an RREQ that is not whole carries bytes of the packet before. -/
lemma not_ownBytes_of_rreq (hty : .ofInt (intAt data 14) = PackType.rreq)
    (hsent : intAt data 62 ≠ 1) : ¬OwnBytes known (some (data, i)) := by
  intro hownb
  have hsame := hownb mute mute (spur true (.cut (textAt data 18)) i) (fun _ => 1) ⟨0, 0, 0, 0⟩
    ⟨0, 0, 0, 0⟩ (Lab.answering []) (fun _ => 0) (mainStart (.replicate ethPackSize 127))
    (mainStart (.replicate ethPackSize 128)) (.refl _ _)
    (mainReach_start _ _ _ List.length_replicate) (mainReach_start _ _ _ List.length_replicate)
    rfl rfl
  simp only [mainLink, processBuffer, LinkState.bufferAfter, LinkState.recvIfAfter, mainStart]
    at hsame
  have hreply : ∀ {buf : Bytes} {srcIdx destIdx : ℤ} {srcHw : HwAddr},
      ∃ f, (processPackAt (spur true (.cut (textAt data 18)) i) (fun _ => 1) ⟨0, 0, 0, 0⟩ srcIdx
        destIdx (Lab.answering []) (fun _ => 0) Lab.freshNode
        (packIn (recvInto buf data ethPackSize)) srcHw i).out.sent = [f] ∧
        f.pack.srcDest = (packIn (recvInto buf data ethPackSize)).srcDest := by
    intro buf srcIdx destIdx srcHw
    refine sent_rreq ((type_recvInto hown).trans hty) ((withinMaxh_recvInto hown).mpr hhop) ?_ ?_
      rfl rfl
    · rwa [packIn_rrepSent, intAt_recvInto (by omega) (by decide)]
    · rw [packIn_destCanIpStr, textAt_recvInto (by omega) (by decide)]
      simp [isSelfDest, spur]
  exact srcDest_ne hlen (hsame.srcDest_eq hreply hreply)

include hlen hown hhop in
/-- And so does an RREP that is passed on. -/
lemma not_ownBytes_of_rrep (hty : .ofInt (intAt data 14) = PackType.rrep) :
    ¬OwnBytes known (some (data, i)) := by
  intro hownb
  have hsame := hownb mute mute (spur false (.cut []) i) (fun _ => 1) ⟨0, 0, 0, 0⟩ ⟨0, 0, 0, 0⟩
    (Lab.answering []) (fun _ => 0) (mainStart (.replicate ethPackSize 127))
    (mainStart (.replicate ethPackSize 128)) (.refl _ _)
    (mainReach_start _ _ _ List.length_replicate) (mainReach_start _ _ _ List.length_replicate)
    rfl rfl
  simp only [mainLink, processBuffer, LinkState.bufferAfter, LinkState.recvIfAfter, mainStart,
    getIndexFromIp_mute] at hsame
  have hrelay : ∀ {buf : Bytes} {srcHw : HwAddr},
      ∃ f, (processPackAt (spur false (.cut []) i) (fun _ => 1) ⟨0, 0, 0, 0⟩ (-48) (-48)
        (Lab.answering []) (fun _ => 0) Lab.freshNode
        (packIn (recvInto buf data ethPackSize)) srcHw i).out.sent = [f] ∧
        f.pack.srcDest = (packIn (recvInto buf data ethPackSize)).srcDest := by
    intro buf srcHw
    exact sent_rrep ((type_recvInto hown).trans hty) ((withinMaxh_recvInto hown).mpr hhop)
      (one_ne_neg_one ∘ Eq.symm) rfl rfl
  exact srcDest_ne hlen (hsame.srcDest_eq hrelay hrelay)

/-- Of three addresses one is neither of two. -/
lemma exists_canIp_ne (a b : CanIp) : ∃ c, c ≠ a ∧ c ≠ b := by
  have hcard : ({a, b} : Finset CanIp).card <
      ({Lab.ip 0, Lab.ip 1, Lab.ip 2} : Finset CanIp).card :=
    lt_of_le_of_lt Finset.card_le_two (by decide)
  obtain ⟨c, -, hc⟩ := Finset.exists_mem_notMem_of_card_lt_card hcard
  exact ⟨c, by simpa [not_or] using hc⟩

include hlen hown hhop in
/-- Whether a DATA packet goes on depends on what is behind it, unless it has enough of
`src_dest`. -/
lemma not_ownBytes_of_data (hty : .ofInt (intAt data 14) = PackType.data) {v : ℤ}
    (hv : v = 1 ∨ v = -1) (hpre : data.drop 142 <+: bytesOfInt v) :
    ¬OwnBytes known (some (data, i)) := by
  intro hownb
  obtain ⟨self, hsrc, hdest⟩ := exists_canIp_ne (.cut (textAt data 33)) (.cut (textAt data 18))
  have hsame := hownb mute mute (spur true self i) (fun _ => 1) ⟨0, 0, 0, 0⟩ ⟨0, 0, 0, 0⟩
    (Lab.answering []) (fun _ => 0) _ _ (.refl _ _)
    (mainReach_routeFrame known self i (length_bytesOfInt v))
    (mainReach_routeFrame known self i (show [0, 0, 0, 127].length = 4 from rfl)) rfl rfl
  simp only [mainLink, processBuffer, LinkState.bufferAfter, LinkState.recvIfAfter,
    getIndexFromIp_mute] at hsame
  have hself : ∀ buf, isSelfSrc (spur true self i)
      (packIn (recvInto buf data ethPackSize)).srcCanIpStr = 0 := by
    intro buf
    rw [packIn_srcCanIpStr, textAt_recvInto (by omega) (by decide)]
    exact if_neg hsrc
  have hself' : ∀ buf, isSelfDest (spur true self i)
      (packIn (recvInto buf data ethPackSize)).destCanIpStr = 0 := by
    intro buf
    rw [packIn_destCanIpStr, textAt_recvInto (by omega) (by decide)]
    exact if_neg hdest
  have htype : ∀ buf, (packIn (recvInto buf data ethPackSize)).type = .data :=
    fun buf => (type_recvInto hown).trans hty
  have hwithin : ∀ buf, (packIn (recvInto buf data ethPackSize)).WithinMaxh :=
    fun buf => (withinMaxh_recvInto hown).mpr hhop
  -- one buffer completes the frame to a direction, the other to none
  have hway : (packIn (recvInto (routeFrame (bytesOfInt v)) data ethPackSize)).srcDest = v := by
    have hdrop : (recvInto (routeFrame (bytesOfInt v)) data ethPackSize).drop 142 = _ :=
      drop_recvInto hlen.le (by rwa [drop_routeFrame])
    rw [packIn_srcDest, intAt, slice, hdrop, drop_routeFrame]
    rcases hv with rfl | rfl
    · decide
    · decide
  have hnoWay : maxh < (packIn (recvInto (routeFrame [0, 0, 0, 127]) data ethPackSize)).srcDest :=
    (intAt_recvInto_top (length_routeFrame rfl) (Nat.le_of_lt_succ hlen) (by decide)
      (by decide +kernel)).1 rfl
  have hnone := hsame.sent.trans (sent_data_noWay (htype _) (hwithin _) (hself _) (hself' _)
    (ne_of_gt (lt_trans (by decide) hnoWay)) (ne_of_gt (lt_trans (by decide) hnoWay)))
  exact sent_data (e := ⟨-48, .cut [], 0, i, 0, 0⟩) (htype _) (hwithin _) (hself _) (hself' _)
    (hway.symm ▸ hv) rfl rfl rfl rfl hnone

end

end Odr
