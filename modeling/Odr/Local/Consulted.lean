/-
# What handling a packet takes from the table

Once the table is updated, a path through `process_pack` looks at most one key up, which follows
from the packet and from the rest of the node's state: `consulted`.  The entry that is found
there, if there is one, is the only one that is used (`used_packAt`), and two tables that agree on
the key lead to the same frames, datagrams and marks (`packAt_congr`).
-/
import Odr.Local.GuardedLookups

namespace Odr

/-- The key that a packet makes `process_pack` look up. -/
def consulted (h : Host) (srcIdx destIdx : ℤ) (io : UnixIo) (s : Node) (p : OdrPack) :
    Option ℤ :=
  match p.type with
  | .rreq =>
      if p.rreq.rrepSent = 1 then none
      else if isSelfDest h p.destCanIpStr = 1 then some srcIdx
      else if (s.latestRreq srcIdx).toInt < p.rreq.broadcastId ∧ s.forcedDiscovery ≠ 1 then
        some destIdx
      else none
  | .rrep =>
      if isSelfSrc h p.srcCanIpStr = 1 then
        if s.routeDiscovered = 0 then some destIdx else none
      else some srcIdx
  | .data =>
      if isSelfSrc h p.srcCanIpStr ≠ 0 then none
      else if isSelfDest h p.destCanIpStr ≠ 0 then
        if io.answer.isSome then some srcIdx else none
      else if p.srcDest = 1 then some destIdx
      else if p.srcDest = -1 then some srcIdx
      else none
  | .other _ => none

/-- The entries that a traced path has found. -/
def Traced.used (tr : Traced) : List RtblEntry := tr.lookups.filterMap Lookup.entry

/-- The same outcome with another table. -/
def Traced.withRtbl (tr : Traced) (t : Rtbl) : Traced :=
  { tr with out.node.rtbl := t }

section

variable {h : Host} {res : ℕ → ℤ} {junk : RtblRead} {srcIdx destIdx : ℤ} {io : UnixIo}
  {t t₁ t₂ : Rtbl} {s : Node} {p : OdrPack} {recvIf key : ℤ}

/-! ## The entries that are used -/

lemma used_rreqAt (hty : p.type = .rreq) :
    (rreqAt h res junk srcIdx destIdx t s p recvIf).used =
      ((consulted h srcIdx destIdx io s p).bind fun key => findKey key t).toList := by
  simp only [rreqAt, consulted, hty]
  by_cases hsent : p.rreq.rrepSent = 1
  · simp only [if_pos hsent]
    rfl
  simp only [if_neg hsent]
  by_cases hself : isSelfDest h p.destCanIpStr = 1
  · simp only [if_pos hself]
    rcases he : findKey srcIdx t with _ | e
    · simp [getRtblEntryInto_of_none he, Traced.used, he]
    · simp [getRtblEntryInto_of_some he, Traced.used, he]
  simp only [if_neg hself]
  by_cases hnew : (s.latestRreq srcIdx).toInt < p.rreq.broadcastId
  · by_cases hforced : s.forcedDiscovery = 1
    · simp [hnew, hforced, Traced.used]
    rcases he : findKey destIdx t with _ | e
    · have hex := entryExistsForSrc_eq_zero.mpr he
      simp [hnew, hforced, hex, he, Traced.used]
    · have hex := entryExistsForSrc_ne_zero.mpr ⟨e, he⟩
      simp [hnew, hforced, hex, he, getRtblEntryInto_of_some he, Traced.used]
  · simp [hnew, Traced.used]

lemma used_rrepAt (hty : p.type = .rrep) :
    (rrepAt h res junk srcIdx destIdx t s p).used =
      ((consulted h srcIdx destIdx io s p).bind fun key => findKey key t).toList := by
  simp only [rrepAt, consulted, hty]
  by_cases hself : isSelfSrc h p.srcCanIpStr = 1
  · by_cases hrd : s.routeDiscovered = 0
    · rcases he : findKey destIdx t with _ | e
      · simp [hself, hrd, he, Traced.used]
      · simp [hself, hrd, he, Traced.used]
    · simp [hself, hrd, Traced.used]
  · rcases he : findKey srcIdx t with _ | e
    · have hex := entryExistsForSrc_eq_zero.mpr he
      simp [hself, hex, he, Traced.used]
    · have hex := entryExistsForSrc_ne_zero.mpr ⟨e, he⟩
      simp [hself, hex, he, getRtblEntryInto_of_some he, Traced.used]

lemma used_dataAt (hty : p.type = .data) :
    (dataAt h res srcIdx destIdx io t s p).used =
      ((consulted h srcIdx destIdx io s p).bind fun key => findKey key t).toList := by
  have hway : ∀ {key : ℤ} {site : Site} {x : Outcome},
      (if entryExistsForSrc key t = 0 then (⟨⟨{ s with rtbl := t }, p, 0, [], []⟩, [], []⟩ : Traced)
        else ⟨x, [⟨site, key, findKey key t⟩], []⟩).used = (findKey key t).toList := by
    intro key site x
    rcases he : findKey key t with _ | e
    · rw [if_pos (entryExistsForSrc_eq_zero.mpr he)]
      rfl
    · rw [if_neg (entryExistsForSrc_ne_zero.mpr ⟨e, he⟩)]
      rfl
  simp only [dataAt, consulted, hty]
  by_cases hsrc : isSelfSrc h p.srcCanIpStr ≠ 0
  · simp only [if_pos hsrc]
    rfl
  simp only [if_neg hsrc]
  by_cases hdest : isSelfDest h p.destCanIpStr ≠ 0
  · simp only [if_pos hdest]
    rcases hio : io.answer with _ | text
    · simp [Traced.used]
    · rcases he : findKey srcIdx t with _ | e
      · simp [Traced.used, he]
      · simp [Traced.used, he]
  simp only [if_neg hdest]
  by_cases hto : p.srcDest = 1
  · simp only [if_pos hto]
    exact hway
  by_cases hback : p.srcDest = -1
  · simp only [if_neg hto, if_pos hback]
    exact hway
  · simp only [if_neg hto, if_neg hback]
    rfl

/-- **The entry under the consulted key is the only one that is used.** -/
theorem used_packAt :
    (packAt h res junk srcIdx destIdx io t s p recvIf).used =
      ((consulted h srcIdx destIdx io s p).bind fun key => findKey key t).toList := by
  rw [packAt]
  rcases hty : p.type with _ | _ | _ | n
  · exact used_rreqAt hty
  · exact used_rrepAt hty
  · exact used_dataAt hty
  · simp only [consulted, hty]
    rfl

/-! ## Tables that agree on the consulted key -/

lemma entryExistsForSrc_congr (h : findKey key t₁ = findKey key t₂) :
    entryExistsForSrc key t₁ = entryExistsForSrc key t₂ := by
  rcases he : findKey key t₂ with _ | e
  · rw [entryExistsForSrc_eq_zero.mpr he, entryExistsForSrc_eq_zero.mpr (h.trans he)]
  · have h₁ := entryExistsForSrc_eq_one.mpr (by rw [h, he]; rfl : (findKey key t₁).isSome)
    have h₂ := entryExistsForSrc_eq_one.mpr (by rw [he]; rfl : (findKey key t₂).isSome)
    rw [h₁, h₂]

lemma getRtblEntryInto_congr (h : findKey key t₁ = findKey key t₂) (junk : RtblRead) :
    getRtblEntryInto key t₁ junk = getRtblEntryInto key t₂ junk := by
  rw [getRtblEntryInto_eq, getRtblEntryInto_eq, h]

lemma payloadCalls_congr (h₁ : KeyNodup t₁) (h₂ : KeyNodup t₂)
    (h : findKey key t₁ = findKey key t₂) : payloadCalls t₁ key = payloadCalls t₂ key := by
  rcases he : findKey key t₂ with _ | e
  · rw [payloadCalls_of_missing he, payloadCalls_of_missing (h.trans he)]
  · rw [payloadCalls_of_findKey h₂ he, payloadCalls_of_findKey h₁ (h.trans he)]

lemma sendPayload_congr (h₁ : KeyNodup t₁) (h₂ : KeyNodup t₂)
    (h : findKey key t₁ = findKey key t₂) (ifs : List IfInfo) (q : OdrPack) (log : List Frame) :
    sendPayload res ifs t₁ q key log = sendPayload res ifs t₂ q key log := by
  rw [sendPayload, sendPayload, payloadLoop_eq_foldl, payloadLoop_eq_foldl,
    payloadCalls_congr h₁ h₂ h]

section Congr

variable (h₁ : KeyNodup t₁) (h₂ : KeyNodup t₂)
  (hagree : ∀ key ∈ consulted h srcIdx destIdx io s p, findKey key t₁ = findKey key t₂)

include hagree

lemma rreqAt_congr (hty : p.type = .rreq) :
    rreqAt h res junk srcIdx destIdx t₂ s p recvIf =
      (rreqAt h res junk srcIdx destIdx t₁ s p recvIf).withRtbl t₂ := by
  simp only [consulted, hty] at hagree
  simp only [rreqAt]
  by_cases hsent : p.rreq.rrepSent = 1
  · simp only [if_pos hsent]
    rfl
  simp only [if_neg hsent] at hagree ⊢
  by_cases hself : isSelfDest h p.destCanIpStr = 1
  · simp only [if_pos hself] at hagree ⊢
    have heq := hagree srcIdx rfl
    rw [getRtblEntryInto_congr heq, heq]
    split
    · rfl
    · rfl
  simp only [if_neg hself] at hagree ⊢
  by_cases hnew : (s.latestRreq srcIdx).toInt < p.rreq.broadcastId
  · simp only [if_pos hnew]
    by_cases hforced : s.forcedDiscovery = 1
    · -- the flood does not depend on the test for an entry
      simp only [hforced, or_true, if_true]
      rfl
    · have heq := hagree destIdx (by simp [hnew, hforced])
      simp only [entryExistsForSrc_congr heq, getRtblEntryInto_congr heq, heq]
      split
      · rfl
      split
      · rfl
      · rfl
  · simp only [if_neg hnew]
    rfl

include h₁ h₂

lemma rrepAt_congr (hty : p.type = .rrep) :
    rrepAt h res junk srcIdx destIdx t₂ s p =
      (rrepAt h res junk srcIdx destIdx t₁ s p).withRtbl t₂ := by
  simp only [consulted, hty] at hagree
  simp only [rrepAt]
  by_cases hself : isSelfSrc h p.srcCanIpStr = 1
  · simp only [if_pos hself] at hagree ⊢
    by_cases hrd : s.routeDiscovered = 0
    · simp only [if_pos hrd] at hagree ⊢
      have heq := hagree destIdx rfl
      rw [sendPayload_congr h₁ h₂ heq, heq]
      rfl
    · simp only [if_neg hrd]
      rfl
  · simp only [if_neg hself] at hagree ⊢
    have heq := hagree srcIdx rfl
    simp only [entryExistsForSrc_congr heq, getRtblEntryInto_congr heq, heq]
    split
    · rfl
    split
    · rfl
    · rfl

lemma dataAt_congr (hty : p.type = .data) :
    dataAt h res srcIdx destIdx io t₂ s p =
      (dataAt h res srcIdx destIdx io t₁ s p).withRtbl t₂ := by
  simp only [consulted, hty] at hagree
  simp only [dataAt]
  by_cases hsrc : isSelfSrc h p.srcCanIpStr ≠ 0
  · simp only [if_pos hsrc]
    rfl
  simp only [if_neg hsrc] at hagree ⊢
  by_cases hdest : isSelfDest h p.destCanIpStr ≠ 0
  · simp only [if_pos hdest] at hagree ⊢
    rcases hio : io.answer with _ | text
    · rfl
    · have heq := hagree srcIdx (by simp [hio])
      simp only [sendPayload_congr h₁ h₂ heq, heq]
      rfl
  simp only [if_neg hdest] at hagree ⊢
  by_cases hto : p.srcDest = 1
  · simp only [if_pos hto] at hagree ⊢
    have heq := hagree destIdx rfl
    simp only [sendPayload_congr h₁ h₂ heq, entryExistsForSrc_congr heq, heq]
    split
    · rfl
    · rfl
  simp only [if_neg hto] at hagree ⊢
  by_cases hback : p.srcDest = -1
  · simp only [if_pos hback] at hagree ⊢
    have heq := hagree srcIdx rfl
    simp only [sendPayload_congr h₁ h₂ heq, entryExistsForSrc_congr heq, heq]
    split
    · rfl
    · rfl
  · simp only [if_neg hback]
    rfl

/-- **Tables that agree on the consulted key** lead to the same outcome. -/
theorem packAt_congr :
    packAt h res junk srcIdx destIdx io t₂ s p recvIf =
      (packAt h res junk srcIdx destIdx io t₁ s p recvIf).withRtbl t₂ := by
  simp only [packAt]
  rcases hty : p.type with _ | _ | _ | n
  · exact rreqAt_congr hagree hty
  · exact rrepAt_congr h₁ h₂ hagree hty
  · exact dataAt_congr h₁ h₂ hagree hty
  · rfl

end Congr

end

end Odr
