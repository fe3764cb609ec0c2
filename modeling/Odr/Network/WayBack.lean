/-
# The way back

An RREQ and an RREP leave an entry for the node that they come from.  DATA does not: the blocks
of `update_rtbl_entry` for DATA improve an entry that is there, and their branches for a missing
one are empty.  So DATA leaves a way back only where there was one.

The daemon of the destination sends the server's answer without asking for an entry.  It leaves
the node if and only if the table had an entry for the source before the request arrived, which a
node that has seen no flood of the source's need not have.
-/
import Odr.Network.Invariants
import Odr.Network.Lab

namespace Odr

open Lab
open Transition.System (Along along_snoc)

/-! ## Tables -/

/-- The key of the node that a packet comes from: the source of an RREQ and of a DATA request,
the destination of an RREP and of a DATA reply. -/
def cameFrom (rs : Resolver) (p : OdrPack) : Option ℤ :=
  match p.type with
  | .rreq => some (srcKey rs p)
  | .rrep => some (destKey rs p)
  | .data =>
      if p.srcDest = 1 then some (srcKey rs p)
      else if p.srcDest = -1 then some (destKey rs p) else none
  | .other _ => none

section Tables

variable {rs : Resolver} {now : ℤ} {p : OdrPack} {nextHop : HwAddr} {ifIdx : ℤ} {t : Rtbl}

/-- Every packet makes its offer for the node that it comes from. -/
lemma cameFrom_eq (rs : Resolver) (now : ℤ) (p : OdrPack) (nextHop : HwAddr) (ifIdx : ℤ) :
    cameFrom rs p = (offer rs now p nextHop ifIdx).map Offer.key := by
  rw [cameFrom, offer]
  rcases p.type with _ | _ | _ | n
  · rfl
  · rfl
  · dsimp only
    split
    · rfl
    split
    · rfl
    · rfl
  · rfl

lemma exists_findKey_cameFrom (sp : ℤ) {key : ℤ} (hkey : cameFrom rs p = some key) :
    (∃ e, findKey key (updateRtblEntry rs sp now p nextHop ifIdx t) = some e) ↔
      p.type ≠ .data ∨ ∃ e, findKey key t = some e := by
  rw [cameFrom_eq rs now p nextHop ifIdx, Option.map_eq_some_iff] at hkey
  obtain ⟨o, ho, rfl⟩ := hkey
  rcases he : findKey o.key t with _ | e
  · by_cases hty : p.type = .data
    · have hnone := findKey_updateRtblEntry_data sp ho hty he
      simp [hnone, hty]
    · obtain ⟨ip, hnew⟩ := findKey_updateRtblEntry_new sp ho hty he
      simp [hnew, hty]
  · obtain ⟨ip, hold⟩ := findKey_updateRtblEntry_some sp ho he
    simp [hold]

end Tables

/-! ## Runs -/

namespace Network

variable {k : ℕ} {nw : Network k} {tr : List (Net k × Label k)} {σ : Net k} {f : Transit k}
  {io : UnixIo}

/-- The copy is a DATA request that has reached its destination, which is not its source. -/
def AtDestination (nw : Network k) (f : Transit k) : Prop :=
  f.pack.WithinMaxh ∧ f.pack.type = .data ∧ f.pack.srcDest = 1 ∧
    f.pack.destCanIpStr = nw.addr f.dst ∧ f.pack.srcCanIpStr ≠ nw.addr f.dst

instance (f : Transit k) : Decidable (nw.AtDestination f) := inferInstanceAs (Decidable (_ ∧ _))

/-- If the step delivers a DATA request to its destination and the time server answers, a reply
leaves along the destination's entry for the source. -/
def Replies (nw : Network k) (_ : List (Net k × Label k)) (x : Net k × Label k) : Prop :=
  ∀ i io f, x.2 = .deliver i io → x.1.wire[i]? = some f → nw.AtDestination f →
    io.answer.isSome → ∃ g ∈ (nw.receive x.1 f io).sent,
      g.pack.type = .data ∧ g.pack.srcDest = -1 ∧ g.pack.srcCanIpStr = f.pack.srcCanIpStr ∧
      ∃ e, findKey (srcKey nw.rs f.pack) (nw.receive x.1 f io).node.rtbl = some e ∧
        g.hDest = e.nextHopHwaddr ∧ g.ifindex = e.ifNo

/-- If the step delivers a DATA request to its destination and the time server answers, the
destination has an entry for the source. -/
def KnowsSource (nw : Network k) (_ : List (Net k × Label k)) (x : Net k × Label k) : Prop :=
  ∀ i io f, x.2 = .deliver i io → x.1.wire[i]? = some f → nw.AtDestination f →
    io.answer.isSome → ∃ e, findKey (srcKey nw.rs f.pack) (x.1.node f.dst).rtbl = some e

/-- The answer of the time server leaves along the entries for the source. -/
lemma sent_of_answer {nw : NamedNetwork k} (hf : nw.AtDestination f) {text : Bytes}
    (hio : io.answer = some text) :
    (nw.receive σ f io).sent = payloadFrames (nw.ifs f.dst) (nw.learned σ f).rtbl
      (f.pack.timeReply (recvInto (σ.node f.dst).serverTimeReply text 32))
      (srcKey nw.rs f.pack) := by
  obtain ⟨hop, hty, -, hdest, hsrc⟩ := hf
  rw [receive, processPack, if_neg hop.not_over, hty]
  dsimp only [processData]
  rw [if_neg (not_not.mpr (isSelfSrc_eq_zero.mpr hsrc)), if_pos (isSelfDest_ne_zero.mpr hdest),
    hio]
  exact sendPayload_fst _ _ []

lemma replies_iff {nw : NamedNetwork k} (hwf : nw.Wf σ) (l : Label k) :
    nw.Replies tr (σ, l) ↔ nw.KnowsSource tr (σ, l) := by
  have hlearn : ∀ {f : Transit k}, nw.AtDestination f →
      ((∃ e, findKey (srcKey nw.rs f.pack) (nw.learned σ f).rtbl = some e) ↔
        ∃ e, findKey (srcKey nw.rs f.pack) (σ.node f.dst).rtbl = some e) := by
    rintro f ⟨-, hty, hdir, -⟩
    have hfrom : cameFrom nw.rs f.pack = some (srcKey nw.rs f.pack) := by
      simp [cameFrom, hty, hdir]
    have hiff : (∃ e, findKey _ (nw.learned σ f).rtbl = some e) ↔ _ :=
      exists_findKey_cameFrom (nw.host f.dst).sp hfrom
    simp only [hty, ne_eq, not_true, false_or] at hiff
    exact hiff
  constructor
  · intro h i io f hl hf hat hio
    obtain ⟨g, hg, -⟩ := h i io f hl hf hat hio
    obtain ⟨text, hio⟩ := Option.isSome_iff_exists.mp hio
    rw [sent_of_answer hat hio] at hg
    obtain ⟨e, he, hkey, -⟩ := mem_payloadFrames.mp hg
    have hfind := findKey_of_mem (keyNodup_updateRtblEntry _ (hwf.nodup f.dst)) he
    exact (hlearn hat).mp ⟨e, hkey ▸ hfind⟩
  · intro h i io f hl hf hat hio
    obtain ⟨e, he⟩ := (hlearn hat).mpr (h i io f hl hf hat hio)
    obtain ⟨text, hio⟩ := Option.isSome_iff_exists.mp hio
    obtain ⟨-, -, -, j, hj, -, hidx, -⟩ := linked_of_findKey_learned hwf (mem_wire_of_getElem hf) he
    refine ⟨⟨e.nextHopHwaddr, j.sllAddr, e.ifNo,
      f.pack.timeReply (recvInto (σ.node f.dst).serverTimeReply text 32)⟩, ?_, hat.2.1, rfl, rfl,
      e, ?_, rfl, rfl⟩
    · rw [sent_of_answer hat hio]
      exact mem_payloadFrames.mpr ⟨e, mem_of_findKey he, key_of_findKey he,
        mem_llFrames.mpr ⟨j, hj, hidx, rfl⟩⟩
    · rw [rtbl_receive, if_pos hat.1]
      exact he

/-- **Which packets leave a way back.** After `update_rtbl_entry` there is an entry for the node
that the packet comes from if and only if the packet is not DATA or there was one before.  And in
every run, whenever a DATA request reaches its destination and the time server answers, a reply
leaves toward the source, if and only if, whenever this happens, the destination has an entry for
the source. -/
theorem way_back_iff {nw : NamedNetwork k} (hr : nw.system.Run (fun _ _ => True) tr σ) :
    (∀ sp now p nextHop ifIdx t, ∀ key ∈ cameFrom nw.rs p,
      (∃ e, findKey key (updateRtblEntry nw.rs sp now p nextHop ifIdx t) = some e) ↔
        p.type ≠ .data ∨ ∃ e, findKey key t = some e) ∧
    (Along nw.Replies tr ↔ Along nw.KnowsSource tr) :=
  ⟨fun sp _ _ _ _ _ _ hkey => exists_findKey_cameFrom sp hkey,
    hr.along_congr fun _ _ l _ hr _ _ => replies_iff (wf_of_reach hr.reach) l⟩

/-- The last node of a line looks for an unknown address, so that the others learn of it.  Then
the first node asks for it, and the request travels along their entries. -/
def lineOneWay : List (Label 3) :=
  [asks 2 0 8, .deliver 0 (answering []), .deliver 0 (answering []), asks 0 0 2,
    .deliver 0 (answering [])]

theorem way_back_line :
    (∀ sp now p nextHop ifIdx t, ∀ key ∈ cameFrom line.rs p,
      (∃ e, findKey key (updateRtblEntry line.rs sp now p nextHop ifIdx t) = some e) ↔
        p.type ≠ .data ∨ ∃ e, findKey key t = some e) ∧
    (Along line.Replies (line.system.trace start lineOneWay) ↔
      Along line.KnowsSource (line.system.trace start lineOneWay)) :=
  way_back_iff (run_after (by decide +kernel) fun _ _ => trivial)

/-- The last node has no entry for the first, and its answer is lost. -/
theorem reply_without_way_back :
    ¬∀ (nw : Network 3) tr σ, nw.system.Run (fun _ _ => True) tr σ →
      (∀ sp now p nextHop ifIdx t, ∀ key ∈ cameFrom nw.rs p,
        ∃ e, findKey key (updateRtblEntry nw.rs sp now p nextHop ifIdx t) = some e) ∧
      Along nw.Replies tr := by
  intro h
  have hal : Along line.Replies
      (line.system.trace start (lineOneWay ++ [.deliver 0 (answering [65])])) :=
    (h line _ _ (run_after (by decide +kernel) fun _ _ => trivial)).2
  rw [trace_after (by decide +kernel), along_snoc] at hal
  have hcopy : ∃ f ∈ (after line lineOneWay).wire[0]?, line.AtDestination f ∧
      (line.receive (after line lineOneWay) f (answering [65])).sent = [] := by decide +kernel
  obtain ⟨f, hf, hat, hsent⟩ := hcopy
  obtain ⟨g, hg, -⟩ := hal.2 0 _ f rfl hf hat rfl
  rw [hsent] at hg
  simp at hg

end Network

end Odr
