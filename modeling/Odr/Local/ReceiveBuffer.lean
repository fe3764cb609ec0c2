/-
# Frames in a buffer that is never cleared

`main` receives into the same buffer again and again and does not look at how much it has
received.  Behind a short frame, and all through a receive that fails, the buffer holds what was
there before, and `process_pack` reads it as part of the packet.  Nor does `get_index_from_ip` look
at whether `inet_pton` and `getnameinfo` succeed: the number of an address text that is none is
made of what an earlier call has left on the stack.

So a frame is handled by its own bytes only if it is whole and has addresses where a number is
used, or if what it has settles that nothing of the rest matters: it is dropped for a hop count,
its type is unknown, it is an RREQ that needs no answer, or a DATA packet for neither direction.
-/
import Odr.Local.GuardedLookups
import Odr.Local.RawFrame
import Odr.Source.Inet

namespace Odr

open Buffer

/-- A text of which `get_index_from_ip` makes a number: `inet_pton` reads it, and the address is
among the `known` ones, those that have a name that fits `host`. -/
def Resolved (known : InAddr → Prop) (text : List Char) : Prop :=
  ∃ x, inetPton text = some x ∧ known x

/-- Two resolvers of a machine, of which the memory that is not initialised may differ. -/
structure Resolver.Agrees (known : InAddr → Prop) (rs rs' : Resolver) : Prop where
  getnameinfo : ∀ text, Resolved known text → rs.getnameinfo text = rs'.getnameinfo text
  sockNtop : ∀ msg x, inetAton (textOfBytes msg) = some x → rs.sockNtop msg = rs'.sockNtop msg

/-- The states in which `main` waits: at the start the buffer is as `malloc` leaves it, and
`main` ends when `process_pack` returns `-1`.  What is in memory that is not initialised may change
from one pass to the next. -/
inductive MainReach (known : InAddr → Prop) (rs : Resolver) (h : Host) : LinkState → Prop
  | start {m : LinkState} (hnode : m.node.Initial) (hbuf : m.buffer.length = ethPackSize) :
      MainReach known rs h m
  | link {m : LinkState} {rs' : Resolver} (hrs : rs.Agrees known rs') (res : ℕ → ℤ)
      (junk : RtblRead) (io : UnixIo) (clk : ℕ → ℤ) (rx : Received) (hm : MainReach known rs h m)
      (hret : (mainLink rs' h res junk io clk m rx).2.out.ret ≠ -1) :
      MainReach known rs h (mainLink rs' h res junk io clk m rx).1
  | request {m : LinkState} {rs' : Resolver} (hrs : rs.Agrees known rs') (res : ℕ → ℤ)
      (addr : UnAddr) (req : OdrReq) (hm : MainReach known rs h m) :
      MainReach known rs h { m with node := (mainRequest rs' h res m.node addr req).node }

/-- Two packets have done the same. -/
structure Traced.SameEffect (tr tr' : Traced) : Prop where
  node : tr.out.node = tr'.out.node
  ret : tr.out.ret = tr'.out.ret
  sent : tr.out.sent = tr'.out.sent
  unix : tr.out.unix = tr'.out.unix

/-- What is received is handled by its own bytes: after any two histories that leave `main` in
the same state but for the buffer and the memory that is not initialised it does the same. -/
def OwnBytes (known : InAddr → Prop) (rx : Received) : Prop :=
  ∀ rs rs' h res junk junk' io clk m m', rs.Agrees known rs' → MainReach known rs h m →
    MainReach known rs h m' → m.node = m'.node → m.recvIf = m'.recvIf →
    (mainLink rs h res junk io clk m rx).2.SameEffect (mainLink rs' h res junk' io clk m' rx).2

/-- The bytes of a frame leave nothing to those behind them, and its address texts nothing to the
memory that is not initialised. -/
inductive Decides (known : InAddr → Prop) (data : Bytes) : Prop
  | whole (hlen : ethPackSize ≤ data.length) (hsrc : Resolved known (textAt data 33))
      (hdest : Resolved known (textAt data 18))
  | rreqHop (hlen : 54 ≤ data.length) (hhop : maxh < intAt data 50)
  | rrepHop (hlen : 70 ≤ data.length) (hhop : maxh < intAt data 66)
  | unknown (hlen : 70 ≤ data.length) {t : ℤ} (hty : .ofInt (intAt data 14) = PackType.other t)
  | replySent (hlen : 70 ≤ data.length) (hty : .ofInt (intAt data 14) = PackType.rreq)
      (hsent : intAt data 62 = 1) (hsrc : Resolved known (textAt data 33))
  /-- No `char` is below the number of this flood. -/
  | neverNew (hlen : ethPackSize ≤ data.length) (hty : .ofInt (intAt data 14) = PackType.rreq)
      (hid : intAt data 54 ≤ -128) (hsrc : Resolved known (textAt data 33))
  | noWay (hlen : 142 ≤ data.length) (hty : .ofInt (intAt data 14) = PackType.data)
      (hto : ¬slice data 142 4 <+: bytesOfInt 1) (hback : ¬slice data 142 4 <+: bytesOfInt (-1))
      (hsrc : Resolved known (textAt data 33) ∨
        CanIp.cut (textAt data 33) = .cut (textAt data 18))

lemma Resolver.Agrees.refl (known : InAddr → Prop) (rs : Resolver) : rs.Agrees known rs :=
  ⟨fun _ _ => rfl, fun _ _ _ => rfl⟩

/-! ## The length of the buffer -/

section

variable {known : InAddr → Prop} {rs : Resolver} {h : Host} {res : ℕ → ℤ} {junk : RtblRead}
  {io : UnixIo} {clk : ℕ → ℤ} {srcIdx destIdx recvIf : ℤ} {t : Rtbl} {s : Node} {p : OdrPack}
  {srcHw : HwAddr}

lemma length_payload_packAt (hp : p.payload.length = 64) :
    (packAt h res junk srcIdx destIdx io t s p recvIf).out.pack.payload.length = 64 := by
  have hcpy : ∀ c : Bytes, (strncpy p.payload c 32).length = 64 := by
    intro c
    rw [length_strncpy (by rw [hp]; decide), hp]
  rw [packAt]
  rcases hty : p.type with _ | _ | _ | n
  · dsimp only [rreqAt]
    split_ifs <;> exact hp
  · dsimp only [rrepAt]
    split_ifs
    · exact hcpy _
    all_goals exact hp
  · dsimp only [dataAt]
    split_ifs
    · exact hp
    · rcases io.answer with _ | text
      · exact hp
      · exact hcpy _
    all_goals exact hp
  · exact hp

/-- `process_pack` writes inside the packet, so that the buffer keeps its length. -/
lemma MainReach.length_buffer {m : LinkState} (hm : MainReach known rs h m) :
    m.buffer.length = ethPackSize := by
  induction hm with
  | start hnode hbuf => exact hbuf
  | @link m rs' hrs res junk io clk rx hm hret ih =>
    have hafter : (m.bufferAfter rx).length = ethPackSize := by
      rcases rx with _ | ⟨data, i⟩
      · exact ih
      · exact length_recvInto ih data
    have hpay : (packIn (m.bufferAfter rx)).payload.length = 64 :=
      length_slice (by rw [hafter]; decide)
    refine length_storePack hafter ?_
    rw [processBuffer, processPackAt]
    split
    · exact hpay
    · exact length_payload_packAt hpay
  | request hrs res addr req hm ih => exact ih

end

/-! ## The bytes of a frame -/

section

variable {buf data : Bytes} {off k : ℕ}

/-- Below the length of the frame the buffer has the frame's bytes. -/
lemma slice_recvInto (hoff : off + k ≤ data.length) (hmax : off + k ≤ ethPackSize) :
    slice (recvInto buf data ethPackSize) off k = slice data off k := by
  refine slice_congr (n := min data.length ethPackSize) ?_ (le_min hoff hmax)
  rw [recvInto, List.take_left' (by rw [List.length_take, min_comm]), ← List.take_take]
  exact (List.take_of_length_le (List.length_take_le' _ _)).symm

lemma intAt_recvInto (hoff : off + 4 ≤ data.length) (hmax : off + 4 ≤ ethPackSize) :
    intAt (recvInto buf data ethPackSize) off = intAt data off := by
  rw [intAt, slice_recvInto hoff hmax, intAt]

lemma textAt_recvInto (hoff : off + 16 ≤ data.length) (hmax : off + 16 ≤ ethPackSize) :
    textAt (recvInto buf data ethPackSize) off = textAt data off := by
  rw [textAt, slice_recvInto hoff hmax, textAt]

lemma type_recvInto (hown : 70 ≤ data.length) :
    (packIn (recvInto buf data ethPackSize)).type = .ofInt (intAt data 14) := by
  rw [packIn_type, intAt_recvInto (by omega) (by decide)]

lemma withinMaxh_recvInto (hown : 70 ≤ data.length) :
    (packIn (recvInto buf data ethPackSize)).WithinMaxh ↔
      intAt data 50 ≤ maxh ∧ intAt data 66 ≤ maxh := by
  rw [OdrPack.WithinMaxh, packIn_rreqHop, packIn_rrepHop, intAt_recvInto (by omega) (by decide),
    intAt_recvInto (by omega) (by decide)]

/-- Two buffers with the frame's first 70 bytes agree on the packet up to its RREP header. -/
lemma packIn_recvInto (buf buf' : Bytes) (hown : 70 ≤ data.length) :
    packIn (recvInto buf' data ethPackSize) =
      { packIn (recvInto buf data ethPackSize) with
        rrep := (packIn (recvInto buf' data ethPackSize)).rrep
        payload := (packIn (recvInto buf' data ethPackSize)).payload
        srcDest := (packIn (recvInto buf' data ethPackSize)).srcDest } := by
  have hslice : ∀ off k, off + k ≤ 70 → slice (recvInto buf' data ethPackSize) off k =
      slice (recvInto buf data ethPackSize) off k := by
    intro off k hoff
    have hmax : off + k ≤ ethPackSize := hoff.trans (by decide)
    rw [slice_recvInto (by omega) hmax, slice_recvInto (by omega) hmax]
  simp only [packIn, intAt, textAt, hslice 14 4 (by decide), hslice 18 16 (by decide),
    hslice 33 16 (by decide), hslice 50 4 (by decide), hslice 54 4 (by decide),
    hslice 58 4 (by decide), hslice 62 4 (by decide)]

/-- Two buffers with the frame's first 142 bytes differ in `src_dest` at most. -/
lemma packIn_recvInto_of_le (buf buf' : Bytes) (hown : 142 ≤ data.length) :
    packIn (recvInto buf' data ethPackSize) =
      { packIn (recvInto buf data ethPackSize) with
        srcDest := (packIn (recvInto buf' data ethPackSize)).srcDest } := by
  have hslice : ∀ off k, off + k ≤ 142 → slice (recvInto buf' data ethPackSize) off k =
      slice (recvInto buf data ethPackSize) off k := by
    intro off k hoff
    have hmax : off + k ≤ ethPackSize := hoff.trans (by decide)
    rw [slice_recvInto (by omega) hmax, slice_recvInto (by omega) hmax]
  rw [packIn_recvInto buf buf' (by omega)]
  simp only [packIn, intAt, hslice 66 4 (by decide), hslice 70 4 (by decide),
    hslice 74 4 (by decide), hslice 78 64 (by decide)]

/-- What a frame has of `src_dest` is the beginning of what is read there. -/
lemma prefix_of_srcDest (hbuf : buf.length = ethPackSize) :
    slice data 142 4 <+: bytesOfInt (packIn (recvInto buf data ethPackSize)).srcDest := by
  have hb := length_recvInto hbuf data
  have hown : (data.take ethPackSize).drop 142 = slice data 142 4 :=
    (slice_eq_drop_take data 142 4).symm
  have hlen : (slice data 142 4).length ≤ 4 := List.length_take_le _ _
  rw [packIn_srcDest, bytesOfInt_intAt (by rw [hb]; decide),
    slice.eq_def (recvInto buf data ethPackSize), recvInto, List.drop_append, hown,
    List.take_append, List.take_of_length_le hlen]
  exact List.prefix_append _ _

end

section

variable {h : Host} {res : ℕ → ℤ} {junk junk' : RtblRead} {io : UnixIo} {clk : ℕ → ℤ}
  {srcIdx srcIdx' destIdx destIdx' recvIf : ℤ} {s : Node} {p p' : OdrPack} {srcHw : HwAddr}

lemma Traced.SameEffect.of_eq {tr tr' : Traced} (heq : tr = tr') : tr.SameEffect tr' := by
  rw [heq]
  exact ⟨rfl, rfl, rfl, rfl⟩

/-- Two single frames with the same effect have the same `src_dest`. -/
lemma Traced.SameEffect.srcDest_eq {tr tr' : Traced} {x y : ℤ} (hsame : tr.SameEffect tr')
    (hx : ∃ f, tr.out.sent = [f] ∧ f.pack.srcDest = x)
    (hy : ∃ g, tr'.out.sent = [g] ∧ g.pack.srcDest = y) : x = y := by
  obtain ⟨f, hf, rfl⟩ := hx
  obtain ⟨g, hg, rfl⟩ := hy
  rw [List.singleton_injective (hf.symm.trans (hsame.sent.trans hg))]

/-- A dropped packet does nothing, whatever else there is in it. -/
lemma sameEffect_of_over (hover : maxh < p.rreq.hop ∨ maxh < p.rrep.hop)
    (hover' : maxh < p'.rreq.hop ∨ maxh < p'.rrep.hop) (srcIdx' destIdx' : ℤ) (srcHw' : HwAddr) :
    (processPackAt h res junk srcIdx destIdx io clk s p srcHw recvIf).SameEffect
      (processPackAt h res junk' srcIdx' destIdx' io clk s p' srcHw' recvIf) := by
  rw [processPackAt_of_over hover, processPackAt_of_over hover']
  exact ⟨rfl, rfl, rfl, rfl⟩

lemma sameEffect_unknown {n : ℤ} (hty : p.type = .other n) (hty' : p'.type = .other n)
    (hhop : p'.rreq.hop = p.rreq.hop) (hhop' : p'.rrep.hop = p.rrep.hop) :
    (processPackAt h res junk srcIdx destIdx io clk s p srcHw recvIf).SameEffect
      (processPackAt h res junk' srcIdx' destIdx' io clk s p' srcHw recvIf) := by
  simp only [processPackAt, hhop, hhop', packAt, hty, hty', clockedUpdateAt]
  split
  · exact ⟨rfl, rfl, rfl, rfl⟩
  · exact ⟨rfl, rfl, rfl, rfl⟩

/-- An RREQ whose `rrep_sent` is set only updates the table, from its first fields. -/
lemma sameEffect_replySent (hty : p.type = .rreq) (hsent : p.rreq.rrepSent = 1)
    {rrep : RrepHdr} {payload : Bytes} {srcDest : ℤ} (hhop : rrep.hop = p.rrep.hop) :
    (processPackAt h res junk srcIdx destIdx io clk s p srcHw recvIf).SameEffect
      (processPackAt h res junk' srcIdx destIdx' io clk s
        { p with rrep := rrep, payload := payload, srcDest := srcDest } srcHw recvIf) := by
  simp only [processPackAt, hhop, packAt, hty, clockedUpdateAt, rreqAt, if_pos hsent]
  split
  · exact ⟨rfl, rfl, rfl, rfl⟩
  · exact ⟨rfl, rfl, rfl, rfl⟩

/-- An RREQ with such a number is a duplicate everywhere, and the number of its destination is not
asked for. -/
lemma processPackAt_neverNew (hty : p.type = .rreq) (hid : p.rreq.broadcastId ≤ -128) :
    processPackAt h res junk srcIdx destIdx io clk s p srcHw recvIf
      = processPackAt h res junk srcIdx destIdx' io clk s p srcHw recvIf := by
  have hold : ¬(s.latestRreq srcIdx).toInt < p.rreq.broadcastId :=
    not_lt.mpr (hid.trans (Int8.le_toInt _))
  simp only [processPackAt, packAt, hty, clockedUpdateAt, rreqAt, if_neg hold]

/-- A DATA packet for neither direction is not forwarded, and neither what `src_dest` is nor the
number of its destination matters; that of its source matters where the time server answers. -/
lemma sameEffect_noWay (hty : p.type = .data) {x : ℤ} (hto : p.srcDest ≠ 1)
    (hback : p.srcDest ≠ -1) (hto' : x ≠ 1) (hback' : x ≠ -1)
    (hsrc : srcIdx = srcIdx' ∨ p.srcCanIpStr = p.destCanIpStr) :
    (processPackAt h res junk srcIdx destIdx io clk s p srcHw recvIf).SameEffect
      (processPackAt h res junk' srcIdx' destIdx' io clk s { p with srcDest := x } srcHw
        recvIf) := by
  obtain ⟨type, dest, src, rreq, rrep, payload, srcDest⟩ := p
  obtain rfl : type = .data := hty
  simp only [processPackAt, packAt, clockedUpdateAt, hto, hback, hto', hback', and_false,
    if_false, Bool.false_eq_true]
  split
  · exact ⟨rfl, rfl, rfl, rfl⟩
  dsimp only [dataAt]
  simp only [hto, hback, hto', hback', if_false]
  split
  · exact ⟨rfl, rfl, rfl, rfl⟩
  next hself =>
  split
  · next hdest =>
    rcases io.answer with _ | text
    · exact ⟨rfl, rfl, rfl, rfl⟩
    · rcases hsrc with rfl | heq
      · exact ⟨rfl, rfl, rfl, rfl⟩
      · -- the daemon would be the source as well
        obtain rfl : src = dest := heq
        exact absurd hdest hself
  · exact ⟨rfl, rfl, rfl, rfl⟩

end

lemma getIndexFromIp_congr {known : InAddr → Prop} {rs rs' : Resolver} (hrs : rs.Agrees known rs')
    {text : List Char} (htext : Resolved known text) :
    getIndexFromIp rs text = getIndexFromIp rs' text := by
  rw [getIndexFromIp, getIndexFromIp, hrs.getnameinfo text htext]

/-- A frame that decides is handled by its own bytes. -/
lemma Decides.ownBytes {known : InAddr → Prop} {data : Bytes} (hd : Decides known data) (i : ℤ) :
    OwnBytes known (some (data, i)) := by
  intro rs rs' h res junk junk' io clk m m' hrs hm hm' hnode hif
  have hbuf := hm.length_buffer
  have hbuf' := hm'.length_buffer
  have hint : ∀ off, off + 4 ≤ data.length → off + 4 ≤ ethPackSize → ∀ buf : Bytes,
      intAt (recvInto buf data ethPackSize) off = intAt data off :=
    fun off hoff hmax buf => intAt_recvInto hoff hmax
  have htext : 70 ≤ data.length → ∀ off, off + 16 ≤ 70 → ∀ buf : Bytes,
      textAt (recvInto buf data ethPackSize) off = textAt data off :=
    fun hown off hoff buf => textAt_recvInto (by omega) (hoff.trans (by decide))
  have hhw : 70 ≤ data.length → ∀ buf : Bytes,
      hwAddrAt (recvInto buf data ethPackSize) 6 = hwAddrAt data 6 := by
    intro hown buf
    rw [hwAddrAt, slice_recvInto (by omega) (by decide), hwAddrAt]
  have hown : ethPackSize ≤ data.length → 70 ≤ data.length := fun hle => le_trans (by decide) hle
  simp only [mainLink, LinkState.bufferAfter, LinkState.recvIfAfter, processBuffer, ← hnode]
  cases hd with
  | whole hwhole hsrc hdest =>
    simp only [recvInto_of_le hbuf hwhole, ← recvInto_of_le hbuf' hwhole, htext (hown hwhole) 33
      (by decide), htext (hown hwhole) 18 (by decide), getIndexFromIp_congr hrs hsrc,
      getIndexFromIp_congr hrs hdest]
    exact .of_eq (processPackAt_junk junk')
  | neverNew hwhole hty hid hsrc =>
    simp only [recvInto_of_le hbuf hwhole, ← recvInto_of_le hbuf' hwhole, htext (hown hwhole) 33
      (by decide), getIndexFromIp_congr hrs hsrc]
    refine .of_eq ((processPackAt_junk junk').trans (processPackAt_neverNew ?_ ?_))
    · rw [type_recvInto (hown hwhole), hty]
    · rwa [packIn_broadcastId, hint 54 (by omega) (by decide)]
  | rreqHop hown hhop =>
    have hover : ∀ buf, maxh < (packIn (recvInto buf data ethPackSize)).rreq.hop := by
      intro buf
      rwa [packIn_rreqHop, hint 50 hown (by decide)]
    exact sameEffect_of_over (Or.inl (hover _)) (Or.inl (hover _)) _ _ _
  | rrepHop hown hhop =>
    have hover : ∀ buf, maxh < (packIn (recvInto buf data ethPackSize)).rrep.hop := by
      intro buf
      rwa [packIn_rrepHop, hint 66 hown (by decide)]
    exact sameEffect_of_over (Or.inr (hover _)) (Or.inr (hover _)) _ _ _
  | unknown hown hty =>
    simp only [htext hown 33 (by decide), htext hown 18 (by decide), hhw hown]
    refine sameEffect_unknown ((type_recvInto hown).trans hty) ((type_recvInto hown).trans hty)
      ?_ ?_
    · rw [packIn_rreqHop, packIn_rreqHop, hint 50 (by omega) (by decide),
        hint 50 (by omega) (by decide)]
    · rw [packIn_rrepHop, packIn_rrepHop, hint 66 (by omega) (by decide),
        hint 66 (by omega) (by decide)]
  | replySent hown hty hsent hsrc =>
    simp only [htext hown 33 (by decide), htext hown 18 (by decide), hhw hown,
      getIndexFromIp_congr hrs hsrc]
    rw [packIn_recvInto m.buffer m'.buffer hown]
    refine sameEffect_replySent ((type_recvInto hown).trans hty) ?_ ?_
    · rwa [packIn_rrepSent, hint 62 (by omega) (by decide)]
    · rw [packIn_rrepHop, packIn_rrepHop, hint 66 (by omega) (by decide),
        hint 66 (by omega) (by decide)]
  | noWay hown hty hto hback hsrc =>
    have hne : ∀ {x buf}, ¬slice data 142 4 <+: bytesOfInt x → buf.length = ethPackSize →
        (packIn (recvInto buf data ethPackSize)).srcDest ≠ x := by
      rintro x buf hx hb rfl
      exact hx (prefix_of_srcDest hb)
    simp only [htext (by omega) 33 (by decide), htext (by omega) 18 (by decide), hhw (by omega)]
    rw [packIn_recvInto_of_le m.buffer m'.buffer hown]
    refine sameEffect_noWay ((type_recvInto (by omega)).trans hty) (hne hto hbuf)
      (hne hback hbuf) (hne hto hbuf') (hne hback hbuf') ?_
    rw [packIn_srcCanIpStr, packIn_destCanIpStr, htext (by omega) 33 (by decide),
      htext (by omega) 18 (by decide)]
    exact hsrc.imp_left (getIndexFromIp_congr hrs)

end Odr
