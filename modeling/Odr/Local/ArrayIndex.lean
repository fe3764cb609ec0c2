/-
# The indices into `latest_rreq`

`latest_rreq` has 11 elements, for the numbers of the machines `vm1` to `vm10`.  The number is
read off the third character of the name that `getnameinfo` gives, or off whatever is in its place
if there is no name or a shorter one; nothing checks that it is a digit.

The index is inside the array exactly if this character lies between `'0'` and `':'`, so that a
machine with another kind of name makes its neighbours write elsewhere, and so does any frame
whose source address has such a name or none.
-/
import Odr.Local.StaleBytes

namespace Odr

/-- An index into `char latest_rreq[11]`. -/
def InsideLatestRreq (i : ℤ) : Prop := 0 ≤ i ∧ i ≤ 10

/-- The character at a place of `host`, as an `int`. -/
def hostChar (rs : Resolver) (ipStr : List Char) (j : ℕ) : ℤ :=
  if h : j < 5 then (rs.getnameinfo ipStr ⟨j, h⟩).toInt else 0

/-- The third character of the name of an address is one of the characters from `'0'` to `':'`,
the one behind `'9'`. -/
def Numbered (rs : Resolver) (ipStr : List Char) : Prop :=
  48 ≤ hostChar rs ipStr 2 ∧ hostChar rs ipStr 2 ≤ 58

instance (i : ℤ) : Decidable (InsideLatestRreq i) := inferInstanceAs (Decidable (_ ∧ _))

instance (rs : Resolver) (ipStr : List Char) : Decidable (Numbered rs ipStr) :=
  inferInstanceAs (Decidable (_ ∧ _))

/-- The number of an address is an index exactly if its name has a number. -/
lemma insideLatestRreq_getIndexFromIp {rs : Resolver} {ipStr : List Char} :
    InsideLatestRreq (getIndexFromIp rs ipStr) ↔ Numbered rs ipStr := by
  have hchar : hostChar rs ipStr 2 = (rs.getnameinfo ipStr 2).toInt := rfl
  rw [InsideLatestRreq, Numbered, getIndexFromIp, hchar]
  split
  · next hten =>
    -- `vm10`, whose third character is `'1'`
    omega
  · omega

/-- The packet comes to the place that looks at `latest_rreq`. -/
def OdrPack.LooksAtLatest (h : Host) (p : OdrPack) : Prop :=
  p.WithinMaxh ∧ p.type = .rreq ∧ p.rreq.rrepSent ≠ 1 ∧ isSelfDest h p.destCanIpStr ≠ 1

instance (h : Host) (p : OdrPack) : Decidable (p.LooksAtLatest h) :=
  inferInstanceAs (Decidable (_ ∧ _))

section

variable {rs : Resolver} {h : Host} {res : ℕ → ℤ} {junk : RtblRead} {io : UnixIo} {clk : ℕ → ℤ}
  {srcIdx destIdx recvIf i : ℤ} {t : Rtbl} {s : Node} {p : OdrPack} {srcHw : HwAddr}

lemma indices_rreqAt :
    (rreqAt h res junk srcIdx destIdx t s p recvIf).indices =
      if p.rreq.rrepSent ≠ 1 ∧ isSelfDest h p.destCanIpStr ≠ 1 then [srcIdx] else [] := by
  dsimp only [rreqAt]
  by_cases hsent : p.rreq.rrepSent = 1
  · rw [if_pos hsent, if_neg fun hlooks => hlooks.1 hsent]
  by_cases hself : isSelfDest h p.destCanIpStr = 1
  · have hnot : ¬(p.rreq.rrepSent ≠ 1 ∧ isSelfDest h p.destCanIpStr ≠ 1) := fun hx => hx.2 hself
    rw [if_neg hsent, if_pos hself, if_neg hnot]
    split_ifs <;> rfl
  have hlooks : p.rreq.rrepSent ≠ 1 ∧ isSelfDest h p.destCanIpStr ≠ 1 := ⟨hsent, hself⟩
  rw [if_neg hsent, if_neg hself, if_pos hlooks]
  split_ifs <;> rfl

/-- The index is the number of the source, if the packet comes there at all. -/
lemma indices_processPackAt :
    (processPackAt h res junk srcIdx destIdx io clk s p srcHw recvIf).indices =
      if p.LooksAtLatest h then [srcIdx] else [] := by
  by_cases hop : p.WithinMaxh
  · rw [processPackAt_of_within hop, packAt]
    simp only [OdrPack.LooksAtLatest, hop, true_and]
    rcases hty : p.type with _ | _ | _ | n
    · simp only [indices_rreqAt, true_and]
    · simp only [rrepAt, reduceCtorEq, false_and, if_false]
      split_ifs <;> rfl
    · simp only [dataAt, reduceCtorEq, false_and, if_false]
      split_ifs
      · rfl
      · rcases io.answer with _ | text
        · rfl
        · rfl
      all_goals rfl
    · simp
  · rw [processPackAt_of_over (OdrPack.over_of_not hop), if_neg fun hlooks => hop hlooks.1]

/-- The node with another content of one place of `latest_rreq`. -/
def Node.poke (s : Node) (i : ℤ) (v : Int8) : Node :=
  { s with latestRreq := Function.update s.latestRreq i v }

/-- The same outcome but for one place of `latest_rreq`. -/
def Outcome.poke (o : Outcome) (i : ℤ) (v : Int8) : Outcome := { o with node := o.node.poke i v }

lemma rreqAt_poke (v : Int8) (hi : i ∉ (rreqAt h res junk srcIdx destIdx t s p recvIf).indices) :
    (rreqAt h res junk srcIdx destIdx t (s.poke i v) p recvIf).out =
      (rreqAt h res junk srcIdx destIdx t s p recvIf).out.poke i v := by
  revert hi
  simp only [rreqAt, Node.poke]
  by_cases hsent : p.rreq.rrepSent = 1
  · simp only [if_pos hsent]
    exact fun _ => rfl
  by_cases hself : isSelfDest h p.destCanIpStr = 1
  · simp only [if_neg hsent, if_pos hself]
    split_ifs <;> exact fun _ => rfl
  simp only [if_neg hsent, if_neg hself]
  intro hi
  have hne : srcIdx ≠ i := by
    rintro rfl
    revert hi
    split_ifs <;> simp
  simp only [Function.update_of_ne hne, Function.update_comm hne.symm]
  split_ifs <;> rfl

/-- **Where `process_pack` touches `latest_rreq`.** What is at another index has no effect and
stays. -/
theorem processPackAt_poke (v : Int8)
    (hi : i ∉ (processPackAt h res junk srcIdx destIdx io clk s p srcHw recvIf).indices) :
    (processPackAt h res junk srcIdx destIdx io clk (s.poke i v) p srcHw recvIf).out =
      (processPackAt h res junk srcIdx destIdx io clk s p srcHw recvIf).out.poke i v := by
  by_cases hop : p.WithinMaxh
  · rw [processPackAt_of_within hop, packAt] at hi
    rw [processPackAt_of_within hop, processPackAt_of_within hop, packAt, packAt]
    rcases hty : p.type with _ | _ | _ | n
    · rw [hty] at hi
      exact rreqAt_poke v hi
    · dsimp only [rrepAt, Node.poke]
      split_ifs <;> rfl
    · dsimp only [dataAt, Node.poke]
      split_ifs
      · rfl
      · rcases io.answer with _ | text
        · rfl
        · rfl
      all_goals rfl
    · rfl
  · rw [processPackAt_of_over (OdrPack.over_of_not hop),
      processPackAt_of_over (OdrPack.over_of_not hop)]
    rfl

/-- **Where a request touches it**: at the number of this machine's own address. -/
theorem mainRequest_poke (v : Int8) (hi : i ≠ getIndexFromIp rs h.canIp.str) (addr : UnAddr)
    (req : OdrReq) :
    mainRequest rs h res (s.poke i v) addr req = (mainRequest rs h res s addr req).poke i v := by
  simp only [mainRequest, Outcome.poke, Node.poke]
  rw [Function.update_comm hi]
  rfl

end

/-- **When the indices are inside `latest_rreq`.** Whatever is received on whatever is in the
buffer, and whatever `getnameinfo` leaves in `host`, `process_pack` stays inside the array if and
only if it does not come to the look at `latest_rreq`, or the name of the packet's source has a
number; and a request stays inside if and only if the name of this machine has one. -/
theorem latest_rreq_inside_iff (rs : Resolver) (h : Host) :
    (∀ res junk io clk m rx,
      (∀ i ∈ (mainLink rs h res junk io clk m rx).2.indices, InsideLatestRreq i) ↔
        ((packIn (m.bufferAfter rx)).LooksAtLatest h →
          Numbered rs (textAt (m.bufferAfter rx) 33))) ∧
    (InsideLatestRreq (getIndexFromIp rs h.canIp.str) ↔ Numbered rs h.canIp.str) := by
  refine ⟨fun res junk io clk m rx => ?_, insideLatestRreq_getIndexFromIp⟩
  rw [mainLink, processBuffer, indices_processPackAt, ← insideLatestRreq_getIndexFromIp]
  by_cases hlooks : (packIn (m.bufferAfter rx)).LooksAtLatest h
  · simp [hlooks]
  · simp [hlooks]

/-- A name service that gives every address this name. -/
def named (name : Bytes) : Resolver := ⟨fun _ j => Int8.ofInt (name.getD j 0).toNat, fun _ => []⟩

/-- An RREQ that is on its way, from a machine whose name is `odr`: the index is 66. -/
theorem odr_indexes_outside :
    (mainLink (named [111, 100, 114]) (spur true (Lab.ip 2) 2) (fun _ => 1) ⟨0, 0, 0, 0⟩
      (Lab.answering []) (fun _ => 0) (mainStart (.replicate ethPackSize 0))
      (some (shortRreq ++ .replicate 76 0, 2))).2.indices = [66] ∧ ¬InsideLatestRreq 66 := by
  decide +kernel

end Odr
