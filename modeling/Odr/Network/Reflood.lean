/-
# At most one re-flood

A node re-floods or answers an RREQ only if the broadcast id exceeds the latest one it has
recorded for the RREQ's source, and then records the id.  The records are of the type `char`,
the ids of the type `int`.  Up to the id 126 the two agree, and each node forwards an RREQ at
most once and never its own.  The 127th request of a node writes 128 into the record of its own
id, which reads back as -128: the node then forwards its own RREQs.
-/
import Odr.Network.Invariants
import Odr.Network.Lab

namespace Odr

open Lab

section

variable {rs : Resolver} {h : Host} {io : UnixIo} {now : ℤ} {s s' : Node} {p : OdrPack}
  {srcHw : HwAddr} {recvIf : ℤ} {fr : List Frame} {ux : List UnixSend}

/-- A packet changes the records only where an RREQ passes the test, and an intermediate node
sends frames for an RREQ only then. -/
lemma mark_of_handled (H : Handled rs h io now s p srcHw recvIf s' fr ux) :
    (s'.latestRreq = s.latestRreq ∧
      (p.type = .rreq → isSelfDest h p.destCanIpStr ≠ 1 → fr = [])) ∨
      (p.type = .rreq ∧ (s.latestRreq (srcKey rs p)).toInt < p.rreq.broadcastId ∧
        s'.latestRreq =
          Function.update s.latestRreq (srcKey rs p) (Int8.ofInt p.rreq.broadcastId)) := by
  cases H with
  | rreqFlood hop hty hsent hself hnew => exact Or.inr ⟨hty, hnew, rfl⟩
  | rreqAnswer hop hty hsent hself hnew => exact Or.inr ⟨hty, hnew, rfl⟩
  | rreqDest hop hty hsent hself => exact Or.inl ⟨rfl, fun _ hne => absurd hself hne⟩
  | rrepSource hop hty => exact Or.inl ⟨rfl, fun h' => by simp [hty] at h'⟩
  | rrepRelay hop hty => exact Or.inl ⟨rfl, fun h' => by simp [hty] at h'⟩
  | dataTurn hop hty => exact Or.inl ⟨rfl, fun h' => by simp [hty] at h'⟩
  | dataToServer hop hty => exact Or.inl ⟨rfl, fun h' => by simp [hty] at h'⟩
  | dataToClient hop hty => exact Or.inl ⟨rfl, fun h' => by simp [hty] at h'⟩
  | _ => exact Or.inl ⟨rfl, fun _ _ => rfl⟩

lemma broadcastNo_of_handled (H : Handled rs h io now s p srcHw recvIf s' fr ux) :
    s'.runningBroadcastNo = s.runningBroadcastNo := by
  cases H <;> rfl

end

lemma toInt_ofInt {x : ℤ} (h₁ : 0 ≤ x) (h₂ : x ≤ 127) : (Int8.ofInt x).toInt = x :=
  Int8.toInt_ofInt_of_le (by omega) (by omega)

lemma nextBroadcastNo_eq {x : ℤ} (h₁ : 0 ≤ x) (h₂ : x ≤ 126) : nextBroadcastNo x = x + 1 := by
  rw [nextBroadcastNo, Int.bmod_def]
  omega

namespace Network

variable {k : ℕ} {nw : Network k}

/-- The re-flood or the intermediate answer that a step is: the node, the key of the RREQ's
source and the broadcast id. -/
def floodOf (nw : Network k) (σ : Net k) : Label k → Option (Fin k × ℤ × ℤ)
  | .deliver i io => (σ.wire[i]?).bind fun f =>
      if f.pack.type = .rreq ∧ isSelfDest (nw.host f.dst) f.pack.destCanIpStr ≠ 1 ∧
          (nw.receive σ f io).sent ≠ [] then
        some (f.dst, srcKey nw.rs f.pack, f.pack.rreq.broadcastId)
      else none
  | _ => none

/-- The re-floods and intermediate answers of a run. -/
def floods (nw : Network k) (tr : List (Net k × Label k)) : List (Fin k × ℤ × ℤ) :=
  tr.filterMap fun x => nw.floodOf x.1 x.2

/-- The step does not take a request beyond the 126th of its node. -/
def FewRequests (σ : Net k) : Label k → Prop
  | .request n _ _ => (σ.node n).runningBroadcastNo ≤ 126
  | _ => True

/-- The invariant: no record has been narrowed yet. -/
structure Marked (nw : Network k) (tr : List (Net k × Label k)) (σ : Net k) : Prop where
  counter : ∀ n, 1 ≤ (σ.node n).runningBroadcastNo ∧ (σ.node n).runningBroadcastNo ≤ 127
  own : ∀ n, (σ.node n).runningBroadcastNo - 1 ≤ ((σ.node n).latestRreq (nw.key n)).toInt
  wire : ∀ f ∈ σ.wire, f.pack.type = .rreq → ∃ s, f.pack.srcCanIpStr = nw.addr s ∧
    1 ≤ f.pack.rreq.broadcastId ∧ f.pack.rreq.broadcastId < (σ.node s).runningBroadcastNo
  past : ∀ x ∈ nw.floods tr, x.2.2 ≤ ((σ.node x.1).latestRreq x.2.1).toInt
  foreign : ∀ x ∈ nw.floods tr, x.2.1 ≠ nw.key x.1
  nodup : (nw.floods tr).Nodup

lemma Marked.initial {σ : Net k} (h : σ.Initial) : nw.Marked [] σ where
  counter n := by rw [(h.node n).runningBroadcastNo]; decide
  own n := by rw [(h.node n).runningBroadcastNo, (h.node n).latestRreq]; decide
  wire f hf := by rw [h.wire] at hf; simp at hf
  past x hx := by simp [floods] at hx
  foreign x hx := by simp [floods] at hx
  nodup := by simp [floods]

/-- An RREQ in flight that passes a node's test comes from another node. -/
lemma Marked.fresh {nw : NamedNetwork k} {tr : List (Net k × Label k)} {σ : Net k}
    (hm : nw.Marked tr σ) {f : Transit k} (hf : f ∈ σ.wire) (hty : f.pack.type = .rreq)
    (hlt : ((σ.node f.dst).latestRreq (srcKey nw.rs f.pack)).toInt < f.pack.rreq.broadcastId) :
    srcKey nw.rs f.pack ≠ nw.key f.dst ∧ 0 ≤ f.pack.rreq.broadcastId ∧
      f.pack.rreq.broadcastId ≤ 127 := by
  obtain ⟨s, hs, h1, h2⟩ := hm.wire f hf hty
  have hkey : srcKey nw.rs f.pack = nw.key s := congrArg nw.idx hs
  have hc := (hm.counter s).2
  refine ⟨fun heq => ?_, by omega, by omega⟩
  obtain rfl : s = f.dst := key_inj (hkey.symm.trans heq)
  have hown := hm.own f.dst
  rw [hkey] at hlt
  omega

/-- The records that a delivery leaves are no smaller. -/
lemma Marked.latest_le {nw : NamedNetwork k} {tr : List (Net k × Label k)} {σ : Net k}
    (hm : nw.Marked tr σ) {f : Transit k} (hf : f ∈ σ.wire) (io : UnixIo) (key : ℤ) :
    ((σ.node f.dst).latestRreq key).toInt ≤ ((nw.receive σ f io).node.latestRreq key).toInt := by
  rcases mark_of_handled (nw.receive_handled σ f io) with ⟨h, -⟩ | ⟨hty, hlt, h⟩
  · rw [h]
  · obtain ⟨-, h0, h127⟩ := hm.fresh hf hty hlt
    rw [h]
    rcases eq_or_ne key (srcKey nw.rs f.pack) with rfl | hne
    · rw [Function.update_self, toInt_ofInt h0 h127]
      exact hlt.le
    · rw [Function.update_of_ne hne]

lemma Marked.counter_step {nw : NamedNetwork k} {tr : List (Net k × Label k)} {σ σ' : Net k}
    {l : Label k} (hm : nw.Marked tr σ) (hok : FewRequests σ l) (hs : nw.Steps σ l σ') (n : Fin k) :
    (σ.node n).runningBroadcastNo ≤ (σ'.node n).runningBroadcastNo ∧
      (σ'.node n).runningBroadcastNo ≤ 127 ∧
      (σ'.node n).runningBroadcastNo - 1 ≤ ((σ'.node n).latestRreq (nw.key n)).toInt := by
  have hc := hm.counter n
  have hown := hm.own n
  cases hs.node n with
  | same hl h =>
    rw [h]
    exact ⟨le_rfl, hc.2, hown⟩
  | request client req hl h =>
    subst hl
    -- the number recorded is one more than the id of the RREQ and still fits in a `char`
    have hle : (σ.node n).runningBroadcastNo ≤ 126 := hok
    have hnext := nextBroadcastNo_eq (x := (σ.node n).runningBroadcastNo) (by omega) hle
    have hno : (σ'.node n).runningBroadcastNo = (σ.node n).runningBroadcastNo + 1 := by
      rw [h]
      exact hnext
    have hlatest : ((σ'.node n).latestRreq (nw.key n)).toInt
        = (σ.node n).runningBroadcastNo + 1 := by
      rw [h]
      change (Function.update (σ.node n).latestRreq (nw.key n)
        (Int8.ofInt (nextBroadcastNo (σ.node n).runningBroadcastNo)) (nw.key n)).toInt = _
      rw [Function.update_self, hnext, toInt_ofInt (by omega) (by omega)]
    omega
  | deliver i io f hl hf hn h =>
    subst hn
    have hle := hm.latest_le (mem_wire_of_getElem hf) io (nw.key f.dst)
    rw [h, broadcastNo_of_handled (nw.receive_handled σ f io)]
    exact ⟨le_rfl, hc.2, hown.trans hle⟩

/-- The records for other nodes grow. -/
lemma Marked.latest_step {nw : NamedNetwork k} {tr : List (Net k × Label k)} {σ σ' : Net k}
    {l : Label k} (hm : nw.Marked tr σ) (hs : nw.Steps σ l σ') {n : Fin k} {key : ℤ}
    (hne : key ≠ nw.key n) :
    ((σ.node n).latestRreq key).toInt ≤ ((σ'.node n).latestRreq key).toInt := by
  cases hs.node n with
  | same hl h => rw [h]
  | request client req hl h =>
    rw [h]
    change _ ≤ (Function.update (σ.node n).latestRreq (nw.key n) _ key).toInt
    rw [Function.update_of_ne hne]
  | deliver i io f hl hf hn h =>
    subst hn
    rw [h]
    exact hm.latest_le (mem_wire_of_getElem hf) io key

/-- A re-flood is new: the record for its source was smaller, and is the id afterwards. -/
lemma Marked.floodOf_cases {nw : NamedNetwork k} {tr : List (Net k × Label k)} {σ σ' : Net k}
    {l : Label k} (hm : nw.Marked tr σ) (hs : nw.Steps σ l σ') {x : Fin k × ℤ × ℤ}
    (hx : nw.floodOf σ l = some x) :
    x.2.1 ≠ nw.key x.1 ∧ ((σ.node x.1).latestRreq x.2.1).toInt < x.2.2 ∧
      ((σ'.node x.1).latestRreq x.2.1).toInt = x.2.2 := by
  cases l with
  | request n client req => simp [floodOf] at hx
  | lose i => simp [floodOf] at hx
  | tick d => simp [floodOf] at hx
  | deliver i io =>
    obtain ⟨f, hf, hx⟩ := Option.bind_eq_some_iff.mp hx
    split at hx
    · next hcond =>
      obtain ⟨hty, hself, hsent⟩ := hcond
      obtain rfl := Option.some_injective _ hx
      have hmem := mem_wire_of_getElem hf
      -- frames leave for an RREQ only where it passes the test, which records its id
      rcases mark_of_handled (nw.receive_handled σ f io) with ⟨-, h⟩ | ⟨-, hlt, h⟩
      · exact absurd (h hty hself) hsent
      · obtain ⟨hne, h0, h127⟩ := hm.fresh hmem hty hlt
        refine ⟨hne, hlt, ?_⟩
        rw [hs.node_dst hf, h, Function.update_self, toInt_ofInt h0 h127]
    · simp at hx

lemma floods_snoc (tr : List (Net k × Label k)) (σ : Net k) (l : Label k) :
    nw.floods (tr ++ [(σ, l)]) = nw.floods tr ++ (nw.floodOf σ l).toList := by
  rw [floods, List.filterMap_append]
  rcases h : nw.floodOf σ l with _ | x
  · simp [floods, h]
  · simp [floods, h]

theorem Marked.step {nw : NamedNetwork k} {tr : List (Net k × Label k)} {σ σ' : Net k} {l : Label k}
    (hm : nw.Marked tr σ) (hok : FewRequests σ l) (hs : nw.Steps σ l σ') :
    nw.Marked (tr ++ [(σ, l)]) σ' := by
  have hcount := fun n => hm.counter_step hok hs n
  have hcases : ∀ x ∈ nw.floods (tr ++ [(σ, l)]),
      x ∈ nw.floods tr ∨ nw.floodOf σ l = some x := by
    intro x hx
    rw [floods_snoc] at hx
    rcases List.mem_append.mp hx with hx | hx
    · exact Or.inl hx
    · exact Or.inr (Option.mem_toList.mp hx)
  refine ⟨fun n => ⟨(hm.counter n).1.trans (hcount n).1, (hcount n).2.1⟩,
    fun n => (hcount n).2.2, fun t ht hty => ?_, fun x hx => ?_, fun x hx => ?_, ?_⟩
  · cases hs.wire ht with
    | old h =>
      obtain ⟨s, hs, h1, h2⟩ := hm.wire t h hty
      exact ⟨s, hs, h1, h2.trans_le (hcount s).1⟩
    | request n client req hl h =>
      subst hl
      rw [(rreq_of_mem_request h hty).2]
      refine ⟨n, rfl, (hm.counter n).1, ?_⟩
      have hle : (σ.node n).runningBroadcastNo ≤ 126 := hok
      have hno : (σ'.node n).runningBroadcastNo = (σ.node n).runningBroadcastNo + 1 := by
        rw [hs.node_request]
        exact nextBroadcastNo_eq ((hm.counter n).1.trans' (by omega)) hle
      simp only [rreqPack]
      omega
    | deliver i io f hl hf h =>
      obtain ⟨g, hg, hpack⟩ := exists_frame_of_mem_transmit h
      rw [hpack] at hty ⊢
      have hl := (nw.receive_handled σ f io).leaves hg
      obtain ⟨hp, hid⟩ := hl.rreq hty
      obtain ⟨s, hs, h1, h2⟩ := hm.wire f (mem_wire_of_getElem hf) hp
      rw [hl.src, hid]
      exact ⟨s, hs, h1, h2.trans_le (hcount s).1⟩
  · rcases hcases x hx with hx | hx
    · exact (hm.past x hx).trans (hm.latest_step hs (hm.foreign x hx))
    · exact (hm.floodOf_cases hs hx).2.2.ge
  · rcases hcases x hx with hx | hx
    · exact hm.foreign x hx
    · exact (hm.floodOf_cases hs hx).1
  · rw [floods_snoc, List.nodup_append]
    refine ⟨hm.nodup, by rcases nw.floodOf σ l with _ | y <;> simp, ?_⟩
    -- an RREQ sent before has an id at most the record, the new one a greater id
    rintro x hx y hy rfl
    have hlt := (hm.floodOf_cases hs (Option.mem_toList.mp hy)).2.1
    have hle := hm.past x hx
    omega

/-- **At most one re-flood.** In every run in which no node takes more than 126 requests, each
node re-floods or answers as an intermediate node at most once the RREQ with a given source and
broadcast id, and never its own. -/
theorem floods_nodup {nw : NamedNetwork k} {tr : List (Net k × Label k)} {σ : Net k}
    (hr : nw.system.Run FewRequests tr σ) :
    (nw.floods tr).Nodup ∧ ∀ x ∈ nw.floods tr, x.2.1 ≠ nw.key x.1 := by
  have hm : nw.Marked tr σ := hr.invariant (fun _ => Marked.initial)
    fun _ _ _ _ _ hm hok hs => hm.step hok (steps_of_step hs)
  exact ⟨hm.nodup, hm.foreign⟩

instance (σ : Net k) (l : Label k) : Decidable (FewRequests σ l) :=
  match l with
  | .request _ _ _ => inferInstanceAs (Decidable (_ ≤ _))
  | .deliver _ _ => .isTrue trivial
  | .lose _ => .isTrue trivial
  | .tick _ => .isTrue trivial

/-- A request on a triangle whose RREQ goes round and comes back to its source. -/
def triangleRound : List (Label 3) :=
  [asks 0 0 8, .deliver 0 (answering []), .deliver 1 (answering []),
    .deliver 1 (answering [])]

theorem floods_nodup_triangle :
    (triangle.floods (triangle.system.trace start triangleRound)).Nodup :=
  (floods_nodup (run_after (by decide +kernel) (by decide +kernel))).1

/-- 126 requests whose RREQs are lost, and then one whose RREQ goes round. -/
def triangleLong : List (Label 3) :=
  (List.replicate 126 [asks 0 0 8, .lose 0, .lose 0]).flatten ++ triangleRound

/-- The source floods its own RREQ with the id 127. -/
theorem own_reflood :
    ∃ tr σ, triangle.system.Run (fun _ _ => True) tr σ ∧
      (0, triangle.key 0, 127) ∈ triangle.floods tr :=
  ⟨triangle.system.trace start triangleLong, after triangle triangleLong,
    run_after (by decide +kernel) fun _ _ => trivial, by decide +kernel⟩

end Network

end Odr
