/-
# The direction of route replies

An RREP is meant for the source of the discovery, so it has to leave along the entry for the
packet's source address.  The destination and a relay do this.  An intermediate node that
answers from its table looks up the destination to learn its hop count, and the lookup also
overwrites the next hop and the interface with those of the destination: the reply leaves
along that entry.  It is then in the right place only where the two routes coincide.
-/
import Odr.Network.Lab

namespace Odr

open Lab

section

variable (rs : Resolver) (h : Host) (now : ℤ) (s : Node) (p : OdrPack) (srcHw : HwAddr)
  (recvIf : ℤ)

/-- The node will answer the RREQ from its entry for the destination, whose route goes through
one of its interfaces and is not the route to the source that the RREQ leaves in the table. -/
def AnswersAway : Prop :=
  (p.type = .rreq ∧ p.WithinMaxh ∧ p.rreq.rrepSent ≠ 1 ∧ isSelfDest h p.destCanIpStr ≠ 1 ∧
    (s.latestRreq (srcKey rs p)).toInt < p.rreq.broadcastId ∧ s.forcedDiscovery ≠ 1 ∧
    destKey rs p ≠ srcKey rs p) ∧
  ∃ e ∈ findKey (destKey rs p) s.rtbl, (∃ i ∈ h.ifInfoList, i.sllIfindex = e.ifNo) ∧
    routeAfter rs h.sp now p srcHw recvIf s.rtbl (srcKey rs p) ≠ some e.route

/-- A frame leaves along an entry. -/
def Frame.Along (g : Frame) (e : RtblEntry) : Prop :=
  g.hDest = e.nextHopHwaddr ∧ g.ifindex = e.ifNo

/-- Every RREP that is sent leaves along the entry for the packet's source. -/
def RepliesToSource (out : Outcome) : Prop :=
  ∀ g ∈ out.sent, g.pack.type = .rrep →
    ∃ e ∈ findKey (srcKey rs p) out.node.rtbl, g.Along e

instance (g : Frame) (e : RtblEntry) : Decidable (g.Along e) :=
  inferInstanceAs (Decidable (_ ∧ _))

instance (out : Outcome) : Decidable (RepliesToSource rs p out) :=
  inferInstanceAs (Decidable (∀ g ∈ out.sent, _))

end

variable {rs : Resolver} {h : Host} {now : ℤ} {s : Node} {p : OdrPack} {srcHw : HwAddr}
  {recvIf : ℤ}

lemma along_of_mem_llFrames {ifs : List IfInfo} {q : OdrPack} {e : RtblEntry} {g : Frame}
    (hg : g ∈ llFrames ifs q e.nextHopHwaddr e.ifNo) : g.Along e := by
  obtain ⟨i, -, -, rfl⟩ := mem_llFrames.mp hg
  exact ⟨rfl, rfl⟩

/-- An RREQ only touches the entry for its source. -/
lemma findKey_learn_dest (hty : p.type = .rreq) (hne : destKey rs p ≠ srcKey rs p) :
    findKey (destKey rs p) (s.learn rs h now p srcHw recvIf).rtbl
      = findKey (destKey rs p) s.rtbl := by
  have ho : offer rs now p srcHw recvIf
      = some (srcOffer rs now p srcHw recvIf p.rreq.hop p.rreq.hop) := by rw [offer, hty]
  exact findKey_updateRtblEntry_ne h.sp ho hne

/-- The reply of an intermediate node is in the right place when the routes coincide. -/
lemma repliesToSource_answer (hop : p.WithinMaxh) (hty : p.type = .rreq)
    (hsent : p.rreq.rrepSent ≠ 1) (hself : isSelfDest h p.destCanIpStr ≠ 1)
    (hnew : (s.latestRreq (srcKey rs p)).toInt < p.rreq.broadcastId)
    (hforced : s.forcedDiscovery ≠ 1) {e : RtblEntry}
    (he : findKey (destKey rs p) (s.learn rs h now p srcHw recvIf).rtbl = some e)
    {out : Outcome} (hrtbl : out.node.rtbl = (s.learn rs h now p srcHw recvIf).rtbl)
    (hfr : out.sent = llFrames h.ifInfoList (p.tableReply e) e.nextHopHwaddr e.ifNo ++
      bcastFrames h.ifInfoList (p.answered e) (-1)) :
    RepliesToSource rs p out ↔ ¬AnswersAway rs h now s p srcHw recvIf := by
  obtain ⟨es, hes⟩ := exists_findKey_src rs h now s srcHw recvIf hty
  have hroute := routeAfter_of_learn hes
  rw [RepliesToSource, hrtbl, hfr]
  constructor
  · rintro hall ⟨⟨-, -, -, -, -, -, hne⟩, e', he', ⟨i, hi, hidx⟩, haway⟩
    rw [findKey_learn_dest hty hne] at he
    obtain rfl : e = e' := Option.some_injective _ (he.symm.trans he')
    -- the RREP really leaves, through the interface of the entry for the destination
    have hg : (⟨e.nextHopHwaddr, i.sllAddr, e.ifNo, p.tableReply e⟩ : Frame) ∈
        llFrames h.ifInfoList (p.tableReply e) e.nextHopHwaddr e.ifNo :=
      mem_llFrames.mpr ⟨i, hi, hidx, rfl⟩
    obtain ⟨e', he', hn, hi⟩ := hall _ (List.mem_append_left _ hg) rfl
    obtain rfl : es = e' := Option.some_injective _ (hes.symm.trans he')
    exact haway (hroute.trans (congrArg some (Prod.ext hn.symm hi.symm)))
  · intro hnot g hg hg'
    rcases List.mem_append.mp hg with hg | hg
    · obtain ⟨hn, hi⟩ := along_of_mem_llFrames hg
      refine ⟨es, hes, ?_⟩
      -- with one key for both ends there is only one entry
      by_cases hne : destKey rs p = srcKey rs p
      · rw [hne, hes] at he
        obtain rfl := Option.some_injective _ he
        exact ⟨hn, hi⟩
      · rw [findKey_learn_dest hty hne] at he
        obtain ⟨i, hi', hidx, -⟩ := mem_llFrames.mp hg
        have hsame : es.route = e.route := by
          by_contra haway
          rw [← Option.some_inj, ← hroute] at haway
          exact hnot ⟨⟨hty, hop, hsent, hself, hnew, hforced, hne⟩, e, he, ⟨i, hi', hidx⟩, haway⟩
        exact ⟨hn.trans (congrArg Prod.fst hsame).symm, hi.trans (congrArg Prod.snd hsame).symm⟩
    · rw [pack_of_mem_bcastFrames hg] at hg'
      simp [OdrPack.answered] at hg'

/-- **Route replies leave along the entry for the packet's source**, in every state and for
every packet, exactly when the node does not answer an RREQ from an entry for the destination
whose route differs from its route to the source. -/
theorem repliesToSource_iff (rs : Resolver) (h : Host) (res : ℕ → ℤ) (io : UnixIo) (now : ℤ)
    (s : Node) (p : OdrPack) (srcHw : HwAddr) (recvIf : ℤ) :
    RepliesToSource rs p (processPack rs h res io now s p srcHw recvIf) ↔
      ¬AnswersAway rs h now s p srcHw recvIf := by
  have H : Handled rs h io now s p srcHw recvIf (processPack rs h res io now s p srcHw recvIf).node
      (processPack rs h res io now s p srcHw recvIf).sent
      (processPack rs h res io now s p srcHw recvIf).unix := processPack_handled
  generalize processPack rs h res io now s p srcHw recvIf = out at H ⊢
  obtain ⟨s', q, ret, fr, ux⟩ := out
  simp only at H
  have hnone : RepliesToSource rs p ⟨s', q, ret, fr, ux⟩ → ¬AnswersAway rs h now s p srcHw recvIf →
      (RepliesToSource rs p ⟨s', q, ret, fr, ux⟩ ↔ ¬AnswersAway rs h now s p srcHw recvIf) :=
    fun h₁ h₂ => iff_of_true h₁ h₂
  have hdata : ∀ {t : Rtbl} {q' : OdrPack} {key : ℤ}, q'.type = .data →
      fr = payloadFrames h.ifInfoList t q' key → RepliesToSource rs p ⟨s', q, ret, fr, ux⟩ := by
    intro t q' key hq hfr g hg hg'
    simp only [hfr] at hg
    rw [pack_of_mem_payloadFrames hg, hq] at hg'
    simp at hg'
  have hother : p.type ≠ .rreq → ¬AnswersAway rs h now s p srcHw recvIf :=
    fun hne ha => hne ha.1.1
  cases H with
  | rreqAnswer hop hty hsent hself hnew hforced e he =>
    exact repliesToSource_answer hop hty hsent hself hnew hforced he rfl rfl
  | rreqDest hop hty hsent hself e he =>
    refine hnone (fun g hg _ => ⟨e, he, along_of_mem_llFrames hg⟩) ?_
    exact fun ha => ha.1.2.2.2.1 hself
  | rrepRelay hop hty hself e he =>
    refine hnone (fun g hg _ => ⟨e, he, along_of_mem_llFrames hg⟩) ?_
    exact hother (by simp [hty])
  | rreqFlood hop hty hsent hself hnew hroute =>
    refine hnone (fun g hg hg' => ?_) fun ha => ?_
    · rw [pack_of_mem_bcastFrames hg] at hg'
      exact absurd (hty.symm.trans hg') (by simp)
    · obtain ⟨⟨-, -, -, -, -, hforced, hne⟩, e, he, -⟩ := ha
      rw [findKey_learn_dest hty hne] at hroute
      rcases hroute with hr | hr
      · exact absurd (hr.symm.trans he) (by simp)
      · exact hforced hr
  | dropped hop => exact hnone (by simp [RepliesToSource]) fun ha => hop ha.1.2.1
  | rreqKnown hop hty hsent => exact hnone (by simp [RepliesToSource]) fun ha => ha.1.2.2.1 hsent
  | rreqDup hop hty hsent hself hdup =>
    exact hnone (by simp [RepliesToSource]) fun ha => absurd ha.1.2.2.2.2.1 (not_lt.mpr hdup)
  | unknown hop n hty =>
    exact hnone (by simp [RepliesToSource]) (hother (by simp [hty]))
  | rrepSource hop hty hself hrd =>
    exact hnone (hdata rfl rfl) (hother (by simp [hty]))
  | rrepLate hop hty =>
    exact hnone (by simp [RepliesToSource]) (hother (by simp [hty]))
  | rrepLost hop hty =>
    exact hnone (by simp [RepliesToSource]) (hother (by simp [hty]))
  | dataClient hop hty =>
    exact hnone (by simp [RepliesToSource]) (hother (by simp [hty]))
  | dataTimeout hop hty =>
    exact hnone (by simp [RepliesToSource]) (hother (by simp [hty]))
  | dataTurn hop hty =>
    refine hnone (hdata ?_ rfl) (hother (by simp [hty]))
    exact hty
  | dataToServer hop hty =>
    exact hnone (hdata hty rfl) (hother (by simp [hty]))
  | dataToClient hop hty =>
    exact hnone (hdata hty rfl) (hother (by simp [hty]))
  | dataStray hop hty =>
    exact hnone (by simp [RepliesToSource]) (hother (by simp [hty]))

/-! ## A reply that goes the wrong way -/

/-- The last of three nodes in a row asks for the first; only the middle one hears it.  Then the
first asks for the last, whose address the middle node now knows. -/
def lineReply : List (Label 3) :=
  [asks 2 0 0, .deliver 0 (answering []), .lose 0,
    asks 0 0 2]

/-- The middle node sends its RREP for the first node to the last. -/
theorem reply_away :
    ∃ σ, line.system.Reach (fun _ _ => True) σ ∧ ∃ f ∈ σ.wire, f.pack.type = .rreq ∧
      ¬RepliesToSource line.rs f.pack (line.receive σ f (answering [])) :=
  ⟨after line lineReply, reach_after (by decide +kernel) (fun _ _ => trivial),
    by decide +kernel⟩

end Odr
