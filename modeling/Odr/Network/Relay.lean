/-
# What a relay does with an RREQ

An intermediate node considers an RREQ that is within `MAXH`, has not been answered by another
relay and is not for the node itself.  It drops it if the broadcast id is not above the latest
one of the RREQ's source, and else floods it or answers it from its table.
-/
import Odr.Network.Invariants

namespace Odr

namespace Network

variable {k : ℕ} (nw : Network k)

/-- The copy is an RREQ that its receiver considers to flood or to answer. -/
def Considers (f : Transit k) : Prop :=
  f.pack.type = .rreq ∧ f.pack.WithinMaxh ∧ f.pack.rreq.rrepSent ≠ 1 ∧
    isSelfDest (nw.host f.dst) f.pack.destCanIpStr ≠ 1

instance (f : Transit k) : Decidable (nw.Considers f) := inferInstanceAs (Decidable (_ ∧ _))

/-- The broadcast id is above the latest one recorded for the RREQ's source. -/
def Exceeds (σ : Net k) (f : Transit k) : Prop :=
  ((σ.node f.dst).latestRreq (srcKey nw.rs f.pack)).toInt < f.pack.rreq.broadcastId

instance (σ : Net k) (f : Transit k) : Decidable (nw.Exceeds σ f) :=
  inferInstanceAs (Decidable (_ < _))

/-- The receiver of an RREQ has an entry for its destination. -/
def KnowsDest (σ : Net k) (f : Transit k) : Prop :=
  (findKey (destKey nw.rs f.pack) (nw.learned σ f).rtbl).isSome

instance (σ : Net k) (f : Transit k) : Decidable (nw.KnowsDest σ f) :=
  inferInstanceAs (Decidable (_ = true))

/-- The receiver answers the RREQ from its table. -/
def AnswersFromTable (σ : Net k) (f : Transit k) : Prop :=
  nw.Considers f ∧ nw.Exceeds σ f ∧ (σ.node f.dst).forcedDiscovery ≠ 1 ∧ nw.KnowsDest σ f

instance (σ : Net k) (f : Transit k) : Decidable (nw.AnswersFromTable σ f) :=
  inferInstanceAs (Decidable (_ ∧ _))

variable {nw} {σ : Net k} {f : Transit k} {io : UnixIo}

/-- The state of a relay that has recorded the broadcast id. -/
def marked (nw : Network k) (σ : Net k) (f : Transit k) : Node :=
  (nw.learned σ f).mark (srcKey nw.rs f.pack) f.pack.rreq.broadcastId

/-- **What becomes of an RREQ that a relay considers.** -/
theorem rreq_relay_cases (io : UnixIo) (hc : nw.Considers f) :
    (¬nw.Exceeds σ f ∧ (nw.receive σ f io).sent = [] ∧
      (nw.receive σ f io).node = nw.learned σ f) ∨
    (nw.Exceeds σ f ∧ ¬nw.AnswersFromTable σ f ∧
      (nw.receive σ f io).sent = bcastFrames (nw.ifs f.dst) f.pack.reflood f.ifindex ∧
      (nw.receive σ f io).node = nw.marked σ f) ∨
    (nw.AnswersFromTable σ f ∧ (nw.receive σ f io).node = nw.marked σ f ∧
      ∃ e, findKey (destKey nw.rs f.pack) (nw.learned σ f).rtbl = some e ∧
        (nw.receive σ f io).sent =
          llFrames (nw.ifs f.dst) (f.pack.tableReply e) e.nextHopHwaddr e.ifNo ++
            bcastFrames (nw.ifs f.dst) (f.pack.answered e) (-1)) := by
  have hc' := hc
  obtain ⟨hty, hop, hsent, hself⟩ := hc
  have H := nw.receive_handled σ f io
  generalize nw.receive σ f io = out at H ⊢
  obtain ⟨node, pack, ret, sent, unix⟩ := out
  have hother : ∀ {y : PackType}, y ≠ .rreq → f.pack.type ≠ y :=
    fun hne h => hne (h.symm.trans hty)
  cases H with
  | dropped hnot => exact absurd hop hnot
  | rreqKnown _ _ h => exact absurd h hsent
  | rreqDest _ _ _ h => exact absurd h hself
  | rreqDup _ _ _ _ hdup => exact Or.inl ⟨not_lt.mpr hdup, rfl, rfl⟩
  | rreqFlood _ _ _ _ hnew hroute =>
    refine Or.inr (Or.inl ⟨hnew, ?_, rfl, rfl⟩)
    rintro ⟨-, -, hforced, hknows⟩
    rcases hroute with hnone | hforced'
    · obtain ⟨e, he⟩ := Option.isSome_iff_exists.mp hknows
      exact absurd (hnone.symm.trans he) (by simp)
    · exact hforced hforced'
  | rreqAnswer _ _ _ _ hnew hforced e he =>
    have hknows : nw.KnowsDest σ f := Option.isSome_iff_exists.mpr ⟨e, he⟩
    exact Or.inr (Or.inr ⟨⟨hc', hnew, hforced, hknows⟩, rfl, e, he, rfl⟩)
  | unknown _ n h => exact absurd h (hother (by simp))
  | rrepSource _ h => exact absurd h (hother (by simp))
  | rrepLate _ h => exact absurd h (hother (by simp))
  | rrepLost _ h => exact absurd h (hother (by simp))
  | rrepRelay _ h => exact absurd h (hother (by simp))
  | dataClient _ h => exact absurd h (hother (by simp))
  | dataTimeout _ h => exact absurd h (hother (by simp))
  | dataTurn _ h => exact absurd h (hother (by simp))
  | dataToServer _ h => exact absurd h (hother (by simp))
  | dataToClient _ h => exact absurd h (hother (by simp))
  | dataStray _ h => exact absurd h (hother (by simp))

/-- Only an RREQ that is considered makes its receiver send RREQs. -/
lemma considers_of_sends {g : Frame} (hg : g ∈ (nw.receive σ f io).sent)
    (hgty : g.pack.type = .rreq) : nw.Considers f := by
  have H := nw.receive_handled σ f io
  generalize nw.receive σ f io = out at H hg
  obtain ⟨node, pack, ret, sent, unix⟩ := out
  have hother : ∀ {q : OdrPack}, g.pack = q → q.type ≠ .rreq → nw.Considers f := by
    rintro q rfl hq
    exact absurd hgty hq
  cases H with
  | rreqFlood hop hty hsent hself => exact ⟨hty, hop, hsent, hself⟩
  | rreqAnswer hop hty hsent hself => exact ⟨hty, hop, hsent, hself⟩
  | rreqDest => exact hother (pack_of_mem_llFrames hg) (by simp [OdrPack.destReply])
  | rrepSource => exact hother (pack_of_mem_payloadFrames hg) (by simp [OdrPack.request])
  | rrepRelay hop hty => exact hother (pack_of_mem_llFrames hg) (by simp [OdrPack.relayReply, hty])
  | dataTurn hop hty =>
    exact hother (pack_of_mem_payloadFrames hg) (by simp [OdrPack.timeReply, hty])
  | dataToServer hop hty => exact hother (pack_of_mem_payloadFrames hg) (by simp [hty])
  | dataToClient hop hty => exact hother (pack_of_mem_payloadFrames hg) (by simp [hty])
  | _ => simp at hg

/-- The RREQs that leave a relay. -/
lemma pack_of_sends {g : Frame} (hg : g ∈ (nw.receive σ f io).sent) (hgty : g.pack.type = .rreq) :
    (¬nw.AnswersFromTable σ f ∧ g.pack = f.pack.reflood) ∨
      ∃ e, nw.AnswersFromTable σ f ∧ g.pack = f.pack.answered e := by
  rcases rreq_relay_cases io (considers_of_sends hg hgty) with
    ⟨-, h, -⟩ | ⟨-, hnot, h, -⟩ | ⟨ha, -, e, -, h⟩
  · rw [h] at hg
    simp at hg
  · rw [h] at hg
    exact Or.inl ⟨hnot, pack_of_mem_bcastFrames hg⟩
  · rw [h] at hg
    rcases List.mem_append.mp hg with hg | hg
    · rw [pack_of_mem_llFrames hg] at hgty
      simp [OdrPack.tableReply] at hgty
    · exact Or.inr ⟨e, ha, pack_of_mem_bcastFrames hg⟩

end Network

end Odr
