/-
# Handing frames to the link layer

`broadcast_ll_msg`, `send_ll_msg` and `send_payload` of `odr_aa19.c`.

Every `sendto` on the raw socket may fail.  The three functions keep the list `log` of the
frames handed over so far, and `res k` is what `sendto` returns for the `k`-th frame of a
log; each function returns the longer log together with its own return value.
-/
import Odr.Source.RoutingTable

namespace Odr

section Defs

variable (res : ℕ → ℤ)

/-- The loop over `if_info_list`: one frame for each interface that passes the test, and the
result of the last `sendto`. -/
def sendLoop (test : IfInfo → Bool) (mk : IfInfo → Frame) :
    List IfInfo → List Frame → ℤ → List Frame × ℤ
  | [], log, ret => (log, ret)
  | tmp :: ifs, log, ret =>
      if test tmp then sendLoop test mk ifs (log ++ [mk tmp]) (res log.length)
      else sendLoop test mk ifs log ret

/-- The senders report `1` unless their last result is negative. -/
def okOrErr (r : List Frame × ℤ) : List Frame × ℤ := (r.1, if r.2 ≥ 0 then 1 else -1)

/-- `broadcast_ll_msg`: the packet leaves on every interface but the receiving one. -/
def broadcastLlMsg (ifInfoList : List IfInfo) (packet : OdrPack) (recvIfIndex : ℤ)
    (log : List Frame) : List Frame × ℤ :=
  okOrErr <| sendLoop res (fun tmp => recvIfIndex ≠ tmp.sllIfindex)
    (fun tmp => ⟨broadcastAddr, tmp.sllAddr, tmp.sllIfindex, packet⟩) ifInfoList log 0

/-- `send_ll_msg`: the packet leaves for `sendToHwAddr` on the interface with the index. -/
def sendLlMsg (ifInfoList : List IfInfo) (packet : OdrPack) (sendToHwAddr : HwAddr)
    (sendfromIfIndex : ℤ) (log : List Frame) : List Frame × ℤ :=
  okOrErr <| sendLoop res (fun tmp => sendfromIfIndex = tmp.sllIfindex)
    (fun tmp => ⟨sendToHwAddr, tmp.sllAddr, sendfromIfIndex, packet⟩) ifInfoList log 0

/-- The loop of `send_payload` over the routing table. -/
def payloadLoop (ifInfoList : List IfInfo) (packet : OdrPack) (key : ℤ) :
    Rtbl → List Frame → ℤ → List Frame × ℤ
  | [], log, ret => (log, ret)
  | e :: t, log, ret =>
      if e.key = key then
        let r := sendLlMsg res ifInfoList packet e.nextHopHwaddr e.ifNo log
        payloadLoop ifInfoList packet key t r.1 r.2
      else payloadLoop ifInfoList packet key t log ret

/-- `send_payload`: the packet leaves along every entry with the key. -/
def sendPayload (ifInfoList : List IfInfo) (rtbl : Rtbl) (packet : OdrPack) (key : ℤ)
    (log : List Frame) : List Frame × ℤ :=
  okOrErr <| payloadLoop res ifInfoList packet key rtbl log 0

end Defs

/-! ## The frames that leave -/

/-- The frames of one `send_ll_msg`. -/
def llFrames (ifs : List IfInfo) (packet : OdrPack) (hw : HwAddr) (ifNo : ℤ) : List Frame :=
  (ifs.filter fun i => ifNo = i.sllIfindex).map fun i => ⟨hw, i.sllAddr, ifNo, packet⟩

/-- The frames of one `broadcast_ll_msg`. -/
def bcastFrames (ifs : List IfInfo) (packet : OdrPack) (recvIf : ℤ) : List Frame :=
  (ifs.filter fun i => recvIf ≠ i.sllIfindex).map
    fun i => ⟨broadcastAddr, i.sllAddr, i.sllIfindex, packet⟩

/-- The frames of one `send_payload`. -/
def payloadFrames (ifs : List IfInfo) (t : Rtbl) (packet : OdrPack) (key : ℤ) : List Frame :=
  (t.filter fun e => e.key = key).flatMap fun e => llFrames ifs packet e.nextHopHwaddr e.ifNo

variable {res : ℕ → ℤ} {ifs : List IfInfo} {packet : OdrPack}

lemma sendLoop_fst (test : IfInfo → Bool) (mk : IfInfo → Frame) (log : List Frame) (ret : ℤ) :
    (sendLoop res test mk ifs log ret).1 = log ++ (ifs.filter test).map mk := by
  induction ifs generalizing log ret with
  | nil => simp [sendLoop]
  | cons i ifs ih =>
    rw [sendLoop]
    by_cases h : test i
    · rw [if_pos h, ih]; simp [h]
    · rw [if_neg h, ih]; simp [h]

@[simp] lemma broadcastLlMsg_fst (recvIf : ℤ) (log : List Frame) :
    (broadcastLlMsg res ifs packet recvIf log).1 = log ++ bcastFrames ifs packet recvIf :=
  sendLoop_fst _ _ log 0

@[simp] lemma sendLlMsg_fst (hw : HwAddr) (ifNo : ℤ) (log : List Frame) :
    (sendLlMsg res ifs packet hw ifNo log).1 = log ++ llFrames ifs packet hw ifNo :=
  sendLoop_fst _ _ log 0

@[simp] lemma sendPayload_fst (t : Rtbl) (key : ℤ) (log : List Frame) :
    (sendPayload res ifs t packet key log).1 = log ++ payloadFrames ifs t packet key := by
  have hloop : ∀ (t : Rtbl) (log : List Frame) (ret : ℤ),
      (payloadLoop res ifs packet key t log ret).1 = log ++ payloadFrames ifs t packet key := by
    intro t
    induction t with
    | nil => simp [payloadLoop, payloadFrames]
    | cons e t ih =>
      intro log ret
      rw [payloadLoop]
      by_cases h : e.key = key
      · rw [if_pos h, ih]; simp [payloadFrames, h]
      · rw [if_neg h, ih]; simp [payloadFrames, h]
  exact hloop t log 0

lemma length_llFrames (hw : HwAddr) (ifNo : ℤ) :
    (llFrames ifs packet hw ifNo).length = ifs.countP fun i => ifNo = i.sllIfindex := by
  rw [llFrames, List.length_map, List.countP_eq_length_filter]

/-- A table with one entry for a key sends a payload along that entry. -/
lemma payloadFrames_of_findKey {t : Rtbl} (ht : KeyNodup t) {key : ℤ} {e : RtblEntry}
    (he : findKey key t = some e) :
    payloadFrames ifs t packet key = llFrames ifs packet e.nextHopHwaddr e.ifNo := by
  rw [payloadFrames, filter_key_of_findKey ht he, List.flatMap_singleton]

lemma mem_llFrames {hw : HwAddr} {ifNo : ℤ} {f : Frame} :
    f ∈ llFrames ifs packet hw ifNo ↔
      ∃ i ∈ ifs, i.sllIfindex = ifNo ∧ f = ⟨hw, i.sllAddr, ifNo, packet⟩ := by
  simp only [llFrames, List.mem_map, List.mem_filter, decide_eq_true_eq]
  constructor
  · rintro ⟨i, ⟨hi, hidx⟩, rfl⟩
    exact ⟨i, hi, hidx.symm, rfl⟩
  · rintro ⟨i, hi, hidx, rfl⟩
    exact ⟨i, ⟨hi, hidx.symm⟩, rfl⟩

lemma mem_bcastFrames {recvIf : ℤ} {f : Frame} :
    f ∈ bcastFrames ifs packet recvIf ↔
      ∃ i ∈ ifs, recvIf ≠ i.sllIfindex ∧
        f = ⟨broadcastAddr, i.sllAddr, i.sllIfindex, packet⟩ := by
  simp only [bcastFrames, List.mem_map, List.mem_filter, decide_eq_true_eq]
  constructor
  · rintro ⟨i, ⟨hi, hidx⟩, rfl⟩
    exact ⟨i, hi, hidx, rfl⟩
  · rintro ⟨i, hi, hidx, rfl⟩
    exact ⟨i, ⟨hi, hidx⟩, rfl⟩

lemma mem_payloadFrames {t : Rtbl} {key : ℤ} {f : Frame} :
    f ∈ payloadFrames ifs t packet key ↔
      ∃ e ∈ t, e.key = key ∧ f ∈ llFrames ifs packet e.nextHopHwaddr e.ifNo := by
  simp only [payloadFrames, List.mem_flatMap, List.mem_filter, decide_eq_true_eq, and_assoc]

lemma pack_of_mem_llFrames {hw : HwAddr} {ifNo : ℤ} {f : Frame}
    (hf : f ∈ llFrames ifs packet hw ifNo) : f.pack = packet := by
  obtain ⟨i, -, -, rfl⟩ := mem_llFrames.mp hf
  rfl

lemma pack_of_mem_bcastFrames {recvIf : ℤ} {f : Frame}
    (hf : f ∈ bcastFrames ifs packet recvIf) : f.pack = packet := by
  obtain ⟨i, -, -, rfl⟩ := mem_bcastFrames.mp hf
  rfl

lemma pack_of_mem_payloadFrames {t : Rtbl} {key : ℤ} {f : Frame}
    (hf : f ∈ payloadFrames ifs t packet key) : f.pack = packet := by
  obtain ⟨e, -, -, hf'⟩ := mem_payloadFrames.mp hf
  exact pack_of_mem_llFrames hf'

end Odr
