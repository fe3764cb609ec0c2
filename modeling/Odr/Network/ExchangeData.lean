/-
# The DATA packets of an exchange

While every interface is listed once, a payload sent along an entry is one copy, so that there is
at most one DATA packet in flight.  This module says what its receiver does with it and along
which routes it goes.

The request follows the routes for `d`, which descend because only RREPs make them.  The reply
follows the routes for `s`.  The request has changed some of these on its way, and may have made
them circular, but only those with more hops than the RREQ took that `d` has answered, and the
way back from `d` uses none of them.
-/
import Odr.Network.Exchange

namespace Odr

open DistanceVector Flooding

namespace Network

variable {k : ℕ}

/-! ## One copy of a payload -/

section Single

variable {nw : Network k} {n m : Fin k} {hw : HwAddr} {ifNo : ℤ}

/-- The copies of one frame are distinct. -/
lemma nodup_transmit_singleton (f : Frame) (cause : Fin k × UnAddr) :
    (nw.transmit cause [f]).Nodup := by
  rw [transmit, List.flatMap_singleton, List.nodup_flatMap]
  refine ⟨fun m _ => ?_, ?_⟩
  · refine List.Nodup.map_on ?_ ((List.nodup_dedup _).filter _)
    intro a ha b hb hab
    have ha' := List.mem_dedup.mp (List.mem_filter.mp ha).1
    have hb' := List.mem_dedup.mp (List.mem_filter.mp hb).1
    simp only [Transit.mk.injEq, true_and, and_true] at hab
    exact nw.ifindex_unique m a ha' b hb' hab
  · refine (List.nodup_finRange k).imp fun {a b} hab => ?_
    rintro t ht ht'
    obtain ⟨_, -, rfl⟩ := List.mem_map.mp ht
    obtain ⟨_, -, heq⟩ := List.mem_map.mp ht'
    simp only [Transit.mk.injEq] at heq
    exact hab heq.1.symm

/-- A node that lists each interface once sends one copy along an entry. -/
lemma transmit_payloadFrames (hifs : (nw.ifs n).Nodup) {t : Rtbl} (ht : KeyNodup t) {key : ℤ}
    {e : RtblEntry} (he : findKey key t = some e) (hl : nw.Linked n e.nextHopHwaddr e.ifNo)
    (q : OdrPack) (cause : Fin k × UnAddr) :
    ∃ c, nw.transmit cause (payloadFrames (nw.ifs n) t q key) = [c] ∧ c.pack = q ∧
      nw.Owns c.dst e.nextHopHwaddr := by
  obtain ⟨m, hm⟩ := hl.exists_owns
  obtain ⟨c, hc, rfl, hq⟩ := hl.exists_mem_transmit hm q cause
  rw [payloadFrames_of_findKey ht he]
  obtain ⟨m', i, hi, j, hj, hhw, hidx, hlink, hne⟩ := hl
  have hone : llFrames (nw.ifs n) q e.nextHopHwaddr e.ifNo
      = [⟨e.nextHopHwaddr, j.sllAddr, e.ifNo, q⟩] := by
    rw [llFrames, ← hidx, filter_index_eq_singleton hifs hj]
    rfl
  refine ⟨c, ?_, hq, hm⟩
  rw [hone] at hc ⊢
  have hperm : List.Perm (nw.transmit cause [⟨e.nextHopHwaddr, j.sllAddr, e.ifNo, q⟩]) [c] := by
    refine (List.perm_ext_iff_of_nodup (nodup_transmit_singleton _ _)
      (List.nodup_singleton c)).mpr fun a => ?_
    rw [List.mem_singleton]
    refine ⟨fun ha => ?_, fun h => h ▸ hc⟩
    -- both copies arrive at the interface with the destination address
    obtain ⟨g, hg, x, hx, hrx, hax, hasrc, hap, hac⟩ := mem_transmit.mp ha
    obtain ⟨g', hg', y, hy, hry, hcx, hcsrc, hcp, hcc⟩ := mem_transmit.mp hc
    obtain rfl := List.mem_singleton.mp hg
    obtain rfl := List.mem_singleton.mp hg'
    have hunicast : ∀ {z : Fin k} {b : IfInfo}, b ∈ nw.ifs z →
        nw.receives ⟨e.nextHopHwaddr, j.sllAddr, e.ifNo, q⟩ b → b.sllAddr = i.sllAddr := by
      intro z b hb hr
      simp only [receives, decide_eq_true_eq] at hr
      rcases hr.2.2 with h | h
      · exact absurd (hhw.trans h) (nw.hw_ne_broadcast m' i hi)
      · exact h.symm.trans hhw.symm
    obtain ⟨hdst, rfl⟩ := nw.hw_unique a.dst c.dst x hx y hy
      ((hunicast hx hrx).trans (hunicast hy hry).symm)
    cases a
    cases c
    simp_all
  exact List.perm_singleton.mp hperm

end Single

/-! ## The DATA in flight -/

/-- The DATA packets in flight. -/
def dataWire (σ : Net k) : List (Transit k) := σ.wire.filter fun t => t.pack.type = .data

/-- The number of DATA packets that were delivered. -/
def dataSteps (tr : List (Net k × Label k)) : ℕ :=
  tr.countP fun x => match x.2 with
    | .deliver i _ => (x.1.wire[i]?).any fun f => f.pack.type = .data
    | _ => false

variable {nw : Network k} {s d : Fin k} {client : UnAddr} {σ σ' : Net k} {f : Transit k}
  {i : ℕ} {io : UnixIo} {tr : List (Net k × Label k)}

lemma dataSteps_snoc_of_data (hf : σ.wire[i]? = some f) (hty : f.pack.type = .data) :
    dataSteps (tr ++ [(σ, .deliver i io)]) = dataSteps tr + 1 := by
  simp [dataSteps, List.countP_append, hf, hty]

lemma dataSteps_snoc_of_ne (hf : σ.wire[i]? = some f) (hty : f.pack.type ≠ .data) :
    dataSteps (tr ++ [(σ, .deliver i io)]) = dataSteps tr := by
  simp [dataSteps, List.countP_append, hf, hty]

lemma unixLog_snoc (x : Net k × Label k) :
    nw.unixLog (tr ++ [x]) = nw.unixLog tr ++ nw.unixAt x := by
  simp [unixLog]

lemma unixAt_deliver (hf : σ.wire[i]? = some f) :
    nw.unixAt (σ, .deliver i io) = (nw.receive σ f io).unix.map (Prod.mk f.dst) := by
  simp [unixAt, hf]

/-- Only DATA makes a node use its Unix socket. -/
lemma unix_of_ne_data (hty : f.pack.type ≠ .data) : (nw.receive σ f io).unix = [] := by
  have H := nw.receive_handled σ f io
  revert H
  generalize (nw.receive σ f io).node = s', (nw.receive σ f io).sent = fr,
    (nw.receive σ f io).unix = ux
  intro H
  cases H with
  | dataClient _ h => exact absurd h hty
  | dataTimeout _ h => exact absurd h hty
  | dataTurn _ h => exact absurd h hty
  | dataToServer _ h => exact absurd h hty
  | dataToClient _ h => exact absurd h hty
  | dataStray _ h => exact absurd h hty
  | _ => rfl

lemma filter_eraseIdx_of_not {A : Type*} {p : A → Bool} {l : List A} {j : ℕ} {a : A}
    (ha : l[j]? = some a) (hp : p a = false) : (l.eraseIdx j).filter p = l.filter p := by
  obtain ⟨hj, rfl⟩ := List.getElem?_eq_some_iff.mp ha
  rw [List.eraseIdx_eq_take_drop_succ, List.filter_append]
  conv_rhs => rw [← List.take_append_drop j l, List.filter_append, List.drop_eq_getElem_cons hj,
    List.filter_cons_of_neg (by simpa using hp)]

lemma filter_eraseIdx_of_single {A : Type*} {p : A → Bool} {l : List A} {j : ℕ} {a t : A}
    (ha : l[j]? = some a) (hp : p a = true) (hl : l.filter p = [t]) :
    a = t ∧ (l.eraseIdx j).filter p = [] := by
  obtain ⟨hj, rfl⟩ := List.getElem?_eq_some_iff.mp ha
  rw [← List.take_append_drop j l, List.filter_append, List.drop_eq_getElem_cons hj,
    List.filter_cons_of_pos hp] at hl
  rw [List.eraseIdx_eq_take_drop_succ, List.filter_append]
  rcases hA : (l.take j).filter p with _ | ⟨b, A'⟩
  · rw [hA] at hl
    simp only [List.nil_append, List.cons.injEq] at hl
    exact ⟨hl.1, by simp [hl.2]⟩
  · rw [hA] at hl
    simp at hl

/-- The delivery of another packet leaves the DATA in flight as it is, and adds what is sent. -/
lemma dataWire_of_ne (hf : σ.wire[i]? = some f) (hs : nw.Steps σ (.deliver i io) σ')
    (hty : f.pack.type ≠ .data) : dataWire σ' = dataWire σ ++
      (nw.transmit f.cause (nw.receive σ f io).sent).filter fun t => t.pack.type = .data := by
  cases hs with
  | deliver _ _ f' hf' =>
    obtain rfl := Option.some_injective _ (hf.symm.trans hf')
    rw [dataWire, List.filter_append, filter_eraseIdx_of_not hf (by simpa using hty)]
    rfl

/-- The delivery of the only DATA packet leaves what is sent. -/
lemma dataWire_of_single (hf : σ.wire[i]? = some f) (hs : nw.Steps σ (.deliver i io) σ')
    (hty : f.pack.type = .data) {t : Transit k} (hone : dataWire σ = [t]) : f = t ∧ dataWire σ' =
      (nw.transmit f.cause (nw.receive σ f io).sent).filter fun t => t.pack.type = .data := by
  cases hs with
  | deliver _ _ f' hf' =>
    obtain rfl := Option.some_injective _ (hf.symm.trans hf')
    obtain ⟨rfl, hnil⟩ := filter_eraseIdx_of_single hf (by simpa using hty) hone
    refine ⟨rfl, ?_⟩
    rw [dataWire, List.filter_append, hnil, List.nil_append]

/-! ## The routes that the request and the reply follow -/

/-- The routes for `d` lead to nodes nearer to `d`. -/
def ForthRoute (nw : Network k) (d : Fin k) (σ : Net k) : Prop :=
  ∀ n e m, n ≠ d → findKey (nw.key d) (σ.node n).rtbl = some e → nw.Owns m e.nextHopHwaddr →
    Within nw.key (nw.tables σ) m (nw.key d) e.hop

/-- `d` has a route for `s` with at most `H` hops, and this route and those of all nodes with
fewer than `H` hops lead to nodes nearer to `s`. -/
structure BackRoute (nw : Network k) (s d : Fin k) (H : ℤ) (σ : Net k) : Prop where
  entry : ∃ e, findKey (nw.key s) (σ.node d).rtbl = some e ∧ e.hop ≤ H
  descend : ∀ n e m, n ≠ s → findKey (nw.key s) (σ.node n).rtbl = some e → (n = d ∨ e.hop < H) →
    nw.Owns m e.nextHopHwaddr → Within nw.key (nw.tables σ) m (nw.key s) e.hop

/-- The owner of an address that a node within `x` hops has as its next hop. -/
lemma exists_of_within {nw : NamedNetwork k} {n m : Fin k} {x : ℤ}
    (h : Within nw.key (nw.tables σ) n (nw.key m) x) (hne : n ≠ m) :
    ∃ e, findKey (nw.key m) (σ.node n).rtbl = some e ∧ e.hop < x := by
  rcases h with h | ⟨r, hr, hlt⟩
  · exact absurd (key_inj h) hne
  · obtain ⟨e, he, -, hhop⟩ := tables_eq_some.mp hr
    exact ⟨e, he, hhop ▸ hlt⟩

lemma Talk.within_of_offer (hT : nw.Talk s d client σ) (hf : f ∈ σ.wire)
    (hty : f.pack.type ≠ .data) {o : Offer} (ho : nw.offerOf σ f = some o) {m : Fin k}
    (hm : nw.Owns m f.hwSrc) : Within nw.key (nw.tables σ) m o.key o.hop := by
  obtain ⟨m', hm', hp, -⟩ := hT.sent f hf
  obtain rfl := hm.unique hm'
  exact hp.within hty ho

section Deliver

variable {nw : NamedNetwork k} (hT : nw.Talk s d client σ) (hsd : s ≠ d) (hwf : nw.Wf σ)
  (hf : σ.wire[i]? = some f) (hc : nw.Current σ f) (hs : nw.Steps σ (.deliver i io) σ')
include hT hsd hwf hf hc hs

/-- RREQs, RREPs and the request keep the routes for `d` descending. -/
lemma ForthRoute.deliver (hR : nw.ForthRoute d σ)
    (hdir : f.pack.type = .data → f.pack.srcDest = 1) : nw.ForthRoute d σ' := by
  intro n e' m hnd he' hm
  have hmem := mem_wire_of_getElem hf
  suffices h : Within nw.key (nw.tables σ) m (nw.key d) e'.hop from
    h.improve (improves_of_steps hwf hs)
  rcases findKey_deliver_cases hf hs he' with h | ⟨rfl, -, h⟩
  · exact hR n e' m hnd h hm
  rcases hc.learned_cases h with ⟨e, ip, he, rfl⟩ | ⟨o, ho, hkey, hn, hhop, -⟩
  · exact hR f.dst e m hnd he hm
  rcases (hT.offer_cases hmem ho).2 with ⟨hkey', -⟩ | ⟨-, -, hty | ⟨hty, hback⟩⟩
  · exact absurd (key_inj (hkey'.symm.trans hkey)) hsd
  · rw [← hkey, hhop]
    exact hT.within_of_offer hmem (by simp [hty]) ho (hn ▸ hm)
  · rw [hdir hty] at hback
    exact absurd hback (by decide)

omit hT hsd in
/-- A route back survives offers with `H` hops, and those of nodes that are nearer. -/
lemma BackRoute.deliver_of_offer {x y : Fin k} {H : ℤ} (hB : nw.BackRoute x y H σ)
    (hoff : ∀ o m, nw.offerOf σ f = some o → o.key = nw.key x → nw.Owns m f.hwSrc →
      o.hop = H ∨ Within nw.key (nw.tables σ) m (nw.key x) o.hop) :
    nw.BackRoute x y H σ' := by
  obtain ⟨e₀, he₀, hle₀⟩ := hB.entry
  obtain ⟨e₁, he₁, hle₁⟩ := exists_findKey_of_steps hs he₀
  refine ⟨⟨e₁, he₁, hle₁.trans hle₀⟩, fun n e' m hnx he' hshort hm => ?_⟩
  suffices h : Within nw.key (nw.tables σ) m (nw.key x) e'.hop from
    h.improve (improves_of_steps hwf hs)
  rcases findKey_deliver_cases hf hs he' with h | ⟨rfl, -, h⟩
  · exact hB.descend n e' m hnx h hshort hm
  rcases hc.learned_cases h with ⟨e, ip, he, rfl⟩ | ⟨o, ho, hkey, hn, hhop, -, hlt⟩
  · exact hB.descend f.dst e m hnx he hshort hm
  rcases hoff o m ho hkey (hn ▸ hm) with hH | hw
  · rcases hshort with hy | hlt'
    · rw [hy] at hlt
      have h₀ := hlt e₀ he₀
      omega
    · omega
  · rw [hhop]
    exact hw

/-- The request only records routes with `H` hops for `s`, so it leaves the shorter ones and
that of `d` alone. -/
lemma BackRoute.deliver {H : ℤ} (hB : nw.BackRoute s d H σ)
    (hH : f.pack.type = .data → f.pack.srcDest = 1 → f.pack.rreq.hop = H) :
    nw.BackRoute s d H σ' := by
  have hmem := mem_wire_of_getElem hf
  refine hB.deliver_of_offer hwf hf hc hs fun o m ho hkey hm => ?_
  rcases (hT.offer_cases hmem ho).2 with ⟨-, hoh, -, hty | ⟨hty, hdir⟩⟩ | ⟨hkey', -⟩
  · exact Or.inr (hkey ▸ hT.within_of_offer hmem (by simp [hty]) ho hm)
  · exact Or.inl (hoh.trans (hH hty hdir))
  · exact absurd (key_inj (hkey.symm.trans hkey')) hsd

end Deliver

/-! ## What becomes of a DATA packet -/

/-- What the receiver of a DATA packet does. -/
inductive Carries (nw : Network k) (s d : Fin k) (client : UnAddr) (σ : Net k) (io : UnixIo)
    (f : Transit k) : List Frame → List UnixSend → Prop
  | hand (hd : f.dst = s) :
      Carries nw s d client σ io f []
        [.toClient (some client) ⟨f.pack.payload.take 32, nw.addr d, 57575⟩]
  | turn (hd : f.dst = d) (text : Bytes) (hio : io.answer = some text) :
      Carries nw s d client σ io f
        (payloadFrames (nw.ifs f.dst) (nw.learned σ f).rtbl
          (f.pack.timeReply (recvInto (σ.node f.dst).serverTimeReply text 32)) (nw.key s))
        [.toServer [116, 116]]
  | forth (hns : f.dst ≠ s) (hnd : f.dst ≠ d) (hdir : f.pack.srcDest = 1) :
      Carries nw s d client σ io f
        (payloadFrames (nw.ifs f.dst) (nw.learned σ f).rtbl f.pack (nw.key d)) []
  | back (hns : f.dst ≠ s) (hnd : f.dst ≠ d) (hdir : f.pack.srcDest = -1) :
      Carries nw s d client σ io f
        (payloadFrames (nw.ifs f.dst) (nw.learned σ f).rtbl f.pack (nw.key s)) []

/-- A DATA packet between `s` and `d` is handed over, turned round or passed on. -/
lemma carries_of_data {nw : NamedNetwork k} (hty : f.pack.type = .data) (hop : f.pack.WithinMaxh)
    (hsip : f.pack.srcCanIpStr = nw.addr s) (hdip : f.pack.destCanIpStr = nw.addr d)
    (hdir : f.pack.srcDest = 1 ∨ f.pack.srcDest = -1)
    (hclient : (σ.node s).alClientAddr = some client) (hio : f.dst = d → io.answer.isSome) :
    nw.Carries s d client σ io f (nw.receive σ f io).sent (nw.receive σ f io).unix := by
  have hsrc : f.pack.srcCanIpStr = nw.addr f.dst ↔ f.dst = s := by
    rw [hsip]
    exact ⟨fun h => (addr_inj h).symm, fun h => by rw [h]⟩
  have hdest : f.pack.destCanIpStr = nw.addr f.dst ↔ f.dst = d := by
    rw [hdip]
    exact ⟨fun h => (addr_inj h).symm, fun h => by rw [h]⟩
  have hs : srcKey nw.rs f.pack = nw.key s := congrArg nw.idx hsip
  have hd : destKey nw.rs f.pack = nw.key d := congrArg nw.idx hdip
  have hother : ∀ {y : PackType}, f.pack.type = y → y = .data := fun h' => h'.symm.trans hty
  have H := nw.receive_handled σ f io
  revert H
  generalize (nw.receive σ f io).node = s', (nw.receive σ f io).sent = fr,
    (nw.receive σ f io).unix = ux
  intro H
  cases H with
  | dropped hnot => exact absurd hop hnot
  | dataClient _ _ hself =>
    have hfs := hsrc.mp (isSelfSrc_ne_zero.mp hself)
    rw [hfs, hclient, hdip]
    exact .hand hfs
  | dataTimeout _ _ _ hself hno =>
    have h := hio (hdest.mp (isSelfDest_ne_zero.mp hself))
    rw [hno] at h
    simp at h
  | dataTurn _ _ _ hself text hans =>
    rw [hs]
    exact .turn (hdest.mp (isSelfDest_ne_zero.mp hself)) text hans
  | dataToServer _ _ hns hnd h1 =>
    rw [hd]
    exact .forth (mt hsrc.mpr (isSelfSrc_eq_zero.mp hns)) (mt hdest.mpr (isSelfDest_eq_zero.mp hnd))
      h1
  | dataToClient _ _ hns hnd h1 =>
    rw [hs]
    exact .back (mt hsrc.mpr (isSelfSrc_eq_zero.mp hns)) (mt hdest.mpr (isSelfDest_eq_zero.mp hnd))
      h1
  | dataStray _ _ _ _ hno =>
    rcases hdir with h | h
    · exact absurd h hno.1
    · exact absurd h hno.2
  | unknown _ n h => exact absurd (hother h) (by simp)
  | rreqKnown _ h => exact absurd (hother h) (by simp)
  | rreqDest _ h => exact absurd (hother h) (by simp)
  | rreqDup _ h => exact absurd (hother h) (by simp)
  | rreqFlood _ h => exact absurd (hother h) (by simp)
  | rreqAnswer _ h => exact absurd (hother h) (by simp)
  | rrepSource _ h => exact absurd (hother h) (by simp)
  | rrepLate _ h => exact absurd (hother h) (by simp)
  | rrepLost _ h => exact absurd (hother h) (by simp)
  | rrepRelay _ h => exact absurd (hother h) (by simp)

lemma Talk.carries {nw : NamedNetwork k} (hT : nw.Talk s d client σ) (hf : f ∈ σ.wire)
    (hty : f.pack.type = .data) (hio : f.dst = d → io.answer.isSome) :
    nw.Carries s d client σ io f (nw.receive σ f io).sent (nw.receive σ f io).unix :=
  carries_of_data hty (hT.data hf hty).1 (hT.src f hf) (hT.dest f hf) (hT.data hf hty).2.2
    hT.client hio

/-- RREQs and RREPs make a node send DATA only when an RREP arrives. -/
lemma no_data_sent {nw : NamedNetwork k} (hty : f.pack.type ≠ .data) (ha : ¬nw.Arrives σ f) :
    (nw.transmit f.cause (nw.receive σ f io).sent).filter (fun t => t.pack.type = .data) = [] := by
  refine List.filter_eq_nil_iff.mpr fun t ht hdata => ?_
  rw [decide_eq_true_eq] at hdata
  obtain ⟨g, hg, hpack⟩ := exists_frame_of_mem_transmit ht
  rw [hpack] at hdata
  obtain ⟨hop, q, key, ho, -⟩ := dataOut_of_handled (nw.receive_handled σ f io) hg hdata
  cases ho with
  | source hrep hself h0 => exact ha ⟨hrep, hop, hself, h0⟩
  | turn h => exact hty h
  | pass h => exact hty h

lemma Talk.not_arrives {nw : NamedNetwork k} (hT : nw.Talk s d client σ) (hf : f ∈ σ.wire)
    (hrd : (σ.node s).routeDiscovered ≠ 0) : ¬nw.Arrives σ f := by
  rintro ⟨-, -, hself, h0⟩
  rw [(hT.isSource hf).mp hself] at h0
  exact hrd h0

lemma routeDiscovered_deliver (hf : σ.wire[i]? = some f) (hs : nw.Steps σ (.deliver i io) σ')
    (hrd : (σ.node s).routeDiscovered ≠ 0) : (σ'.node s).routeDiscovered ≠ 0 := by
  by_cases hsf : s = f.dst
  · rw [hsf, hs.node_dst hf, (nw.receive_handled σ f io).routeDiscovered]
    split
    · exact one_ne_zero
    · rw [← hsf]
      exact hrd
  · rw [hs.node_ne hf hsf]
    exact hrd

/-- Only the destination of DATA fills its time buffer. -/
lemma serverTimeReply_deliver (hf : σ.wire[i]? = some f) (hs : nw.Steps σ (.deliver i io) σ')
    (hne : f.pack.type = .data → f.dst ≠ d) :
    (σ'.node d).serverTimeReply = (σ.node d).serverTimeReply := by
  by_cases hdf : d = f.dst
  · rw [hdf, hs.node_dst hf]
    have H := nw.receive_handled σ f io
    revert H
    generalize (nw.receive σ f io).node = s', (nw.receive σ f io).sent = fr,
      (nw.receive σ f io).unix = ux
    intro H
    cases H with
    | dataTurn _ hty => exact absurd hdf.symm (hne hty)
    | _ => rfl
  · rw [hs.node_ne hf hdf]

end Network

end Odr
