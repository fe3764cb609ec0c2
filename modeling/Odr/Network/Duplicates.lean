/-
# New RREQs taken for duplicates

A relay should forward every RREQ whose source and broadcast id it has not seen together before.
It remembers one id for each source, the greatest of those it has considered, and takes an RREQ
with a smaller id for a duplicate.  `Watermark` states what the record is in terms of the history
of a run, and `no_false_duplicate_iff` that the relay is right exactly as long as the new RREQs
of a source reach it in the order of their ids.
-/
import Odr.Network.Reflood
import Odr.Network.Relay

namespace Odr

open Lab
open Transition.System (Along along_snoc)

/-- The source and the broadcast id of an RREQ. -/
def Transit.rreqId {k : ℕ} (f : Transit k) : CanIp × ℤ :=
  (f.pack.srcCanIpStr, f.pack.rreq.broadcastId)

namespace Network

variable {k : ℕ} {nw : Network k} {tr : List (Net k × Label k)} {σ σ' : Net k} {l : Label k}
  {n s : Fin k}

/-! ## The history of a node -/

/-- The RREQ that a step delivers to a node, if it has a property. -/
def heardOf (P : Transit k → Prop) [DecidablePred P] (n : Fin k) (x : Net k × Label k) :
    Option (CanIp × ℤ) :=
  match x.2 with
  | .deliver i _ => (x.1.wire[i]?).bind fun f => if f.dst = n ∧ P f then some f.rreqId else none
  | _ => none

/-- The RREQs that a node has received. -/
def received (n : Fin k) (tr : List (Net k × Label k)) : List (CanIp × ℤ) :=
  tr.filterMap (heardOf (fun f => f.pack.type = .rreq) n)

/-- The RREQs that a node has considered as a relay. -/
def considered (nw : Network k) (n : Fin k) (tr : List (Net k × Label k)) : List (CanIp × ℤ) :=
  tr.filterMap (heardOf nw.Considers n)

/-- The RREQ that a step originates at a node. -/
def issuedOf (nw : Network k) (n : Fin k) (x : Net k × Label k) : Option (CanIp × ℤ) :=
  match x.2 with
  | .request m _ req =>
      if m = n ∧ skipDiscovery nw.rs (x.1.node m) req = false then
        some (nw.addr n, (x.1.node n).runningBroadcastNo)
      else none
  | _ => none

/-- The RREQs that a node has originated. -/
def issued (nw : Network k) (n : Fin k) (tr : List (Net k × Label k)) : List (CanIp × ℤ) :=
  tr.filterMap (nw.issuedOf n)

/-- The step originates no RREQ with an id that does not fit in a `char`. -/
def SmallIds (nw : Network k) (σ : Net k) : Label k → Prop
  | .request n _ req => skipDiscovery nw.rs (σ.node n) req = false →
      1 ≤ (σ.node n).runningBroadcastNo ∧ (σ.node n).runningBroadcastNo ≤ 127
  | _ => True

/-- The step delivers to a relay an RREQ that it has neither received nor originated before. -/
def NewRreq (nw : Network k) (pre : List (Net k × Label k)) (x : Net k × Label k) (i : ℕ)
    (io : UnixIo) (f : Transit k) : Prop :=
  x.2 = .deliver i io ∧ x.1.wire[i]? = some f ∧ nw.Considers f ∧
    f.rreqId ∉ received f.dst pre ∧ f.rreqId ∉ nw.issued f.dst pre

/-- The receiver records the broadcast id of an RREQ and floods it or answers it. -/
def Forwards (nw : Network k) (σ : Net k) (f : Transit k) (io : UnixIo) : Prop :=
  (nw.receive σ f io).node = nw.marked σ f ∧
    ((nw.receive σ f io).sent = bcastFrames (nw.ifs f.dst) f.pack.reflood f.ifindex ∨
      ∃ e, (nw.receive σ f io).sent =
        llFrames (nw.ifs f.dst) (f.pack.tableReply e) e.nextHopHwaddr e.ifNo ++
          bcastFrames (nw.ifs f.dst) (f.pack.answered e) (-1))

/-- If the step delivers a new RREQ, it is forwarded. -/
def ForwardsNew (nw : Network k) (pre : List (Net k × Label k)) (x : Net k × Label k) : Prop :=
  ∀ i io f, nw.NewRreq pre x i io f → nw.Forwards x.1 f io

/-- If the step delivers a new RREQ, its id is above all those of the same source that the relay
has considered. -/
def IdsInOrder (nw : Network k) (pre : List (Net k × Label k)) (x : Net k × Label k) : Prop :=
  ∀ i io f, nw.NewRreq pre x i io f →
    ∀ id, (f.pack.srcCanIpStr, id) ∈ nw.considered f.dst pre → id < f.pack.rreq.broadcastId

lemma heardOf_deliver (P : Transit k → Prop) [DecidablePred P] (n : Fin k) {i : ℕ} (io : UnixIo)
    {f : Transit k} (hf : σ.wire[i]? = some f) :
    heardOf P n (σ, .deliver i io) = if f.dst = n ∧ P f then some f.rreqId else none := by
  simp [heardOf, hf]

lemma mem_filterMap_snoc {A B : Type*} {f : A → Option B} {l : List A} {x : A} {b : B} :
    b ∈ (l ++ [x]).filterMap f ↔ b ∈ l.filterMap f ∨ f x = some b := by
  rw [List.filterMap_append, List.mem_append]
  simp

/-- What a relay has considered it has received. -/
lemma received_of_considered {id : CanIp × ℤ} (h : id ∈ nw.considered n tr) :
    id ∈ received n tr := by
  obtain ⟨⟨σ, l⟩, hx, hid⟩ := List.mem_filterMap.mp h
  refine List.mem_filterMap.mpr ⟨(σ, l), hx, ?_⟩
  cases l with
  | request _ _ _ => simp [heardOf] at hid
  | lose _ => simp [heardOf] at hid
  | tick _ => simp [heardOf] at hid
  | deliver i io =>
    obtain ⟨f, hf, hid⟩ := Option.bind_eq_some_iff.mp hid
    split at hid
    · next hc =>
      rw [heardOf_deliver _ _ _ hf, if_pos ⟨hc.1, hc.2.1⟩]
      exact hid
    · simp at hid

/-! ## The record of a source -/

/-- The latest broadcast id that a node has recorded for another. -/
def latest (nw : Network k) (σ : Net k) (n s : Fin k) : ℤ :=
  ((σ.node n).latestRreq (nw.key s)).toInt

/-- The invariant: the records hold the greatest of the ids considered, and the RREQs in flight
come from nodes that have originated them. -/
structure Watermark (nw : Network k) (tr : List (Net k × Label k)) (σ : Net k) : Prop where
  wire : ∀ f ∈ σ.wire, f.pack.type = .rreq → ∃ s, f.pack.srcCanIpStr = nw.addr s ∧
    f.rreqId ∈ nw.issued s tr ∧ 1 ≤ f.pack.rreq.broadcastId ∧ f.pack.rreq.broadcastId ≤ 127
  le : ∀ n s, n ≠ s → ∀ id, (nw.addr s, id) ∈ nw.considered n tr → id ≤ nw.latest σ n s
  attained : ∀ n s, n ≠ s → nw.latest σ n s = 0 ∨
    (nw.addr s, nw.latest σ n s) ∈ nw.considered n tr

lemma latestRreq_of_not_considers {f : Transit k} {io : UnixIo} (hc : ¬nw.Considers f) :
    (nw.receive σ f io).node.latestRreq = (σ.node f.dst).latestRreq := by
  rw [(nw.receive_handled σ f io).latestRreq]
  exact if_neg fun hnew => hc ⟨hnew.1, hnew.2.1, hnew.2.2.1, hnew.2.2.2.1⟩

/-- The record after an RREQ has been considered. -/
lemma latestRreq_of_considers {f : Transit k} {io : UnixIo} (hc : nw.Considers f) :
    (nw.receive σ f io).node.latestRreq =
      if nw.Exceeds σ f then Function.update (σ.node f.dst).latestRreq (srcKey nw.rs f.pack)
        (Int8.ofInt f.pack.rreq.broadcastId)
      else (σ.node f.dst).latestRreq := by
  obtain ⟨hty, hop, hsent, hself⟩ := hc
  rw [(nw.receive_handled σ f io).latestRreq]
  refine if_congr ⟨fun hnew => hnew.2.2.2.2, fun hex => ?_⟩ rfl rfl
  exact ⟨hty, hop, hsent, hself, hex⟩

/-- A step either lets a node consider an RREQ of a source, whose record becomes the greater of
the two ids, or leaves the record as it is. -/
lemma Watermark.latest_cases {nw : NamedNetwork k} (hw : nw.Watermark tr σ) (hs : nw.Steps σ l σ')
    (hne : n ≠ s) :
    (∃ id, heardOf nw.Considers n (σ, l) = some (nw.addr s, id) ∧
      nw.latest σ' n s = max (nw.latest σ n s) id) ∨
    ((∀ id, heardOf nw.Considers n (σ, l) ≠ some (nw.addr s, id)) ∧
      nw.latest σ' n s = nw.latest σ n s) := by
  cases hs with
  | lose i f hf => exact Or.inr ⟨by simp [heardOf], rfl⟩
  | tick d => exact Or.inr ⟨by simp [heardOf], rfl⟩
  | request m client req =>
    refine Or.inr ⟨by simp [heardOf], ?_⟩
    rw [latest]
    rcases eq_or_ne n m with rfl | hm
    · -- the node writes its own record only
      have hkey : nw.key s ≠ getIndexFromIp nw.rs (nw.host n).canIp.str := fun h =>
        hne (key_inj h).symm
      simp only [Function.update_self, request, mainRequest]
      rw [Function.update_of_ne hkey]
      rfl
    · simp only [Function.update_of_ne hm]
      rfl
  | deliver i io f hf =>
    rw [heardOf_deliver nw.Considers n io hf, latest]
    rcases eq_or_ne n f.dst with rfl | hm
    · simp only [Function.update_self, true_and]
      by_cases hc : nw.Considers f
      · obtain ⟨s', hsrc, -, h₁, h₂⟩ := hw.wire f (mem_wire_of_getElem hf) hc.1
        have hkey : srcKey nw.rs f.pack = nw.key s' := congrArg nw.idx hsrc
        rw [if_pos hc, latestRreq_of_considers hc, hkey]
        rcases eq_or_ne s' s with rfl | hs'
        · refine Or.inl ⟨f.pack.rreq.broadcastId, by rw [Transit.rreqId, hsrc], ?_⟩
          have hlatest : nw.latest σ f.dst s'
              = ((σ.node f.dst).latestRreq (srcKey nw.rs f.pack)).toInt := by rw [hkey, latest]
          split
          · next hlt =>
            rw [Function.update_self, toInt_ofInt (by omega) h₂, hlatest]
            exact (max_eq_right (le_of_lt hlt)).symm
          · next hle =>
            rw [← hkey, ← hlatest, hlatest]
            exact (max_eq_left (not_lt.mp hle)).symm
        · refine Or.inr ⟨fun id h => ?_, ?_⟩
          · rw [Transit.rreqId, hsrc, Option.some.injEq, Prod.mk.injEq] at h
            exact hs' (addr_inj h.1)
          · have hk : nw.key s ≠ nw.key s' := fun h => hs' (key_inj h).symm
            split
            · rw [Function.update_of_ne hk]
              rfl
            · rfl
      · rw [if_neg hc, latestRreq_of_not_considers hc]
        exact Or.inr ⟨by simp, rfl⟩
    · rw [if_neg (fun h => hm h.1.symm)]
      refine Or.inr ⟨by simp, ?_⟩
      simp only [Function.update_of_ne hm]
      rfl

lemma Watermark.initial (h : σ.Initial) : nw.Watermark [] σ where
  wire f hf := by rw [h.wire] at hf; simp at hf
  le n s _ id hid := by simp [considered] at hid
  attained n s _ := by rw [latest, (h.node n).latestRreq]; exact Or.inl rfl

lemma issued_mono {id : CanIp × ℤ} (h : id ∈ nw.issued s tr) (x : Net k × Label k) :
    id ∈ nw.issued s (tr ++ [x]) := mem_filterMap_snoc.mpr (Or.inl h)

lemma Watermark.wire_step (hw : nw.Watermark tr σ) (hok : nw.SmallIds σ l)
    (hs : nw.Steps σ l σ') {t : Transit k} (ht : t ∈ σ'.wire) (hty : t.pack.type = .rreq) :
    ∃ s, t.pack.srcCanIpStr = nw.addr s ∧ t.rreqId ∈ nw.issued s (tr ++ [(σ, l)]) ∧
      1 ≤ t.pack.rreq.broadcastId ∧ t.pack.rreq.broadcastId ≤ 127 := by
  cases hs.wire ht with
  | old h =>
    obtain ⟨s, hsrc, horig, hb⟩ := hw.wire t h hty
    exact ⟨s, hsrc, issued_mono horig _, hb⟩
  | request n client req hl h =>
    subst hl
    obtain ⟨hskip, hpack⟩ := rreq_of_mem_request h hty
    refine ⟨n, by rw [hpack]; rfl, mem_filterMap_snoc.mpr (Or.inr ?_), ?_⟩
    · rw [Transit.rreqId, hpack]
      exact if_pos ⟨rfl, hskip⟩
    · rw [hpack]
      exact hok hskip
  | deliver i io f hl hf h =>
    obtain ⟨g, hg, hpack⟩ := exists_frame_of_mem_transmit h
    have hleaves := (nw.receive_handled σ f io).leaves hg
    obtain ⟨hp, hid⟩ := hleaves.rreq (hpack ▸ hty)
    obtain ⟨s, hsrc, horig, hb⟩ := hw.wire f (mem_wire_of_getElem hf) hp
    have hsame : t.rreqId = f.rreqId := by
      rw [Transit.rreqId, Transit.rreqId, hpack, hleaves.src, hid]
    refine ⟨s, by rw [hpack, hleaves.src, hsrc], ?_, by rw [hpack, hid]; exact hb⟩
    rw [hsame]
    exact issued_mono horig _

theorem Watermark.step {nw : NamedNetwork k} (hw : nw.Watermark tr σ) (hok : nw.SmallIds σ l)
    (hs : nw.Steps σ l σ') :
    nw.Watermark (tr ++ [(σ, l)]) σ' := by
  refine ⟨fun t ht hty => hw.wire_step hok hs ht hty, fun n s hne id hid => ?_, fun n s hne => ?_⟩
  · have hid := mem_filterMap_snoc.mp hid
    rcases hw.latest_cases hs hne with ⟨id', hheard, h⟩ | ⟨hnone, h⟩
    · rw [h]
      rcases hid with hid | hid
      · exact (hw.le n s hne id hid).trans (le_max_left _ _)
      · rw [hheard, Option.some.injEq, Prod.mk.injEq] at hid
        exact hid.2 ▸ le_max_right _ _
    · rw [h]
      exact hw.le n s hne id (hid.resolve_right (hnone id))
  · rcases hw.latest_cases hs hne with ⟨id', hheard, h⟩ | ⟨-, h⟩
    · rcases max_choice (nw.latest σ n s) id' with hmax | hmax
      · rw [h, hmax]
        exact (hw.attained n s hne).imp_right fun h => mem_filterMap_snoc.mpr (Or.inl h)
      · rw [h, hmax]
        exact Or.inr (mem_filterMap_snoc.mpr (Or.inr hheard))
    · rw [h]
      exact (hw.attained n s hne).imp_right fun h => mem_filterMap_snoc.mpr (Or.inl h)

/-- A new RREQ comes from another node, and is compared with the record of that node. -/
lemma Watermark.source_of_new (hw : nw.Watermark tr σ) {i : ℕ} {io : UnixIo} {f : Transit k}
    (hnew : nw.NewRreq tr (σ, l) i io f) :
    ∃ s, f.dst ≠ s ∧ f.pack.srcCanIpStr = nw.addr s ∧ 1 ≤ f.pack.rreq.broadcastId ∧
      f.pack.rreq.broadcastId ≤ 127 ∧
      ((σ.node f.dst).latestRreq (srcKey nw.rs f.pack)).toInt = nw.latest σ f.dst s := by
  obtain ⟨-, hf, hc, -, horig⟩ := hnew
  obtain ⟨s, hsrc, hs, h₁, h₂⟩ := hw.wire f (mem_wire_of_getElem hf) hc.1
  have hkey : srcKey nw.rs f.pack = nw.key s := congrArg nw.idx hsrc
  refine ⟨s, ?_, hsrc, h₁, h₂, by rw [latest, hkey]⟩
  rintro rfl
  exact horig hs

/-- A new RREQ is forwarded exactly if its id is above the record. -/
lemma Watermark.forwards_iff (hw : nw.Watermark tr σ) {i : ℕ} {io : UnixIo} {f : Transit k}
    (hnew : nw.NewRreq tr (σ, l) i io f) : nw.Forwards σ f io ↔ nw.Exceeds σ f := by
  obtain ⟨s, hne, hsrc, h₁, h₂, hlatest⟩ := hw.source_of_new hnew
  obtain ⟨-, -, hc, hrec, -⟩ := hnew
  rcases rreq_relay_cases (σ := σ) io hc with
    ⟨hle, -, h⟩ | ⟨hlt, -, hsent, h⟩ | ⟨ha, h, e, -, hsent⟩
  · refine iff_of_false ?_ hle
    rintro ⟨hnode, -⟩
    -- the record would already be the id, which would then have been considered
    have heq : ((σ.node f.dst).latestRreq (srcKey nw.rs f.pack)).toInt
        = f.pack.rreq.broadcastId := by
      have hmark := congrArg (fun s : Node => (s.latestRreq (srcKey nw.rs f.pack)).toInt)
        (h.symm.trans hnode)
      simp only [marked, Node.mark, Function.update_self] at hmark
      rw [toInt_ofInt (by omega) h₂] at hmark
      exact hmark
    rw [hlatest] at heq
    rcases hw.attained f.dst s hne with h0 | hmem
    · omega
    · have hid : f.rreqId ∈ nw.considered f.dst tr := by
        rw [Transit.rreqId, hsrc, ← heq]
        exact hmem
      exact hrec (received_of_considered hid)
  · exact iff_of_true ⟨h, Or.inl hsent⟩ hlt
  · exact iff_of_true ⟨h, Or.inr ⟨e, hsent⟩⟩ ha.2.1

/-- The id of a new RREQ is above the record exactly if it is above all ids considered. -/
lemma Watermark.exceeds_iff (hw : nw.Watermark tr σ) {i : ℕ} {io : UnixIo} {f : Transit k}
    (hnew : nw.NewRreq tr (σ, l) i io f) :
    nw.Exceeds σ f ↔ ∀ id, (f.pack.srcCanIpStr, id) ∈ nw.considered f.dst tr →
      id < f.pack.rreq.broadcastId := by
  obtain ⟨s, hne, hsrc, h₁, -, hlatest⟩ := hw.source_of_new hnew
  rw [Exceeds, hlatest, hsrc]
  constructor
  · exact fun hlt id hid => (hw.le f.dst s hne id hid).trans_lt hlt
  · intro hall
    rcases hw.attained f.dst s hne with h0 | hmem
    · omega
    · exact hall _ hmem

lemma Watermark.forwardsNew_iff (hw : nw.Watermark tr σ) (l : Label k) :
    nw.ForwardsNew tr (σ, l) ↔ nw.IdsInOrder tr (σ, l) := by
  constructor
  · intro h i io f hnew
    exact (hw.exceeds_iff hnew).mp ((hw.forwards_iff hnew).mp (h i io f hnew))
  · intro h i io f hnew
    exact (hw.forwards_iff hnew).mpr ((hw.exceeds_iff hnew).mpr (h i io f hnew))

lemma watermark_of_run {nw : NamedNetwork k} (hr : nw.system.Run nw.SmallIds tr σ) : nw.Watermark tr
    σ :=
  hr.invariant (fun _ => Watermark.initial)
    fun _ _ _ _ _ hw hok hs => hw.step hok (steps_of_step hs)

/-- **When no new RREQ is taken for a duplicate.** In every run in which the ids of RREQs fit in
a `char`, relays forward every RREQ that they have neither received nor originated before, if and
only if each of these has an id greater than all those of its source that the relay has considered
before. -/
theorem no_false_duplicate_iff {nw : NamedNetwork k} (hr : nw.system.Run nw.SmallIds tr σ) :
    Along nw.ForwardsNew tr ↔ Along nw.IdsInOrder tr :=
  hr.along_congr fun _ _ l _ hr _ _ => (watermark_of_run hr).forwardsNew_iff l

instance (σ : Net k) (l : Label k) : Decidable (nw.SmallIds σ l) :=
  match l with
  | .request _ _ _ => inferInstanceAs (Decidable (_ → _))
  | .deliver _ _ => .isTrue trivial
  | .lose _ => .isTrue trivial
  | .tick _ => .isTrue trivial

/-- Two requests on a triangle.  The first RREQ gets to the third node through the second one
only, after the RREQ of the second request. -/
def triangleOvertaken : List (Label 3) :=
  [asks 0 0 8, .lose 1, asks 0 0 8, .deliver 2 (answering []), .deliver 0 (answering [])]

theorem no_false_duplicate_triangle :
    Along triangle.ForwardsNew (triangle.system.trace start triangleOvertaken) ↔
      Along triangle.IdsInOrder (triangle.system.trace start triangleOvertaken) :=
  no_false_duplicate_iff (run_after (by decide +kernel) (by decide +kernel))

/-- The third node takes the first RREQ for a duplicate when it arrives. -/
theorem overtaken_dropped :
    ¬∀ (nw : Network 3) tr σ, nw.system.Run nw.SmallIds tr σ → Along nw.ForwardsNew tr := by
  intro h
  have hal : Along triangle.ForwardsNew
      (triangle.system.trace start (triangleOvertaken ++ [.deliver 2 (answering [])])) :=
    h triangle _ _ (run_after (by decide +kernel) (by decide +kernel))
  rw [trace_after (by decide +kernel), along_snoc] at hal
  let σ := after triangle triangleOvertaken
  let tr := triangle.system.trace start triangleOvertaken
  have hcopy : ∃ f ∈ σ.wire[2]?, triangle.Considers f ∧ f.rreqId ∉ received f.dst tr ∧
      f.rreqId ∉ triangle.issued f.dst tr ∧
      (triangle.receive σ f (answering [])).node.latestRreq (srcKey triangle.rs f.pack)
        ≠ (triangle.marked σ f).latestRreq (srcKey triangle.rs f.pack) := by decide +kernel
  obtain ⟨f, hf, hc, hrec, horig, hne⟩ := hcopy
  obtain ⟨hnode, -⟩ := hal.2 2 _ f ⟨rfl, hf, hc, hrec, horig⟩
  exact hne (congrArg (fun s : Node => s.latestRreq (srcKey triangle.rs f.pack)) hnode)

end Network

end Odr
