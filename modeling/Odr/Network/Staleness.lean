/-
# Stale entries

Only `update_rtbl_entry` looks at the age of an entry, and only for the key that the packet makes
an offer for.  The tests by which `main` and `process_pack` decide to send along an entry, and the
lookups that fetch it, do not.

An entry under the packet's own key has just been renewed.  Any other entry is used as it is,
however old.
-/
import Odr.Local.Consulted
import Odr.Network.WayBack

namespace Odr

open Lab
open Transition.System (Along along_snoc)

/-- The entries of a table that are not stale. -/
def liveEntries (sp now : ℤ) (t : Rtbl) : Rtbl := t.filter fun e => now - e.ts ≤ sp

section Tables

variable {rs : Resolver} {sp now : ℤ} {p : OdrPack} {nextHop : HwAddr} {ifIdx key : ℤ} {t : Rtbl}

lemma keyNodup_liveEntries (sp now : ℤ) (ht : KeyNodup t) : KeyNodup (liveEntries sp now t) :=
  ht.sublist (List.filter_sublist.map _)

/-- Under a key whose entry is not stale the table and its live entries agree. -/
lemma findKey_liveEntries (ht : KeyNodup t)
    (hlive : ∀ e, findKey key t = some e → now - e.ts ≤ sp) :
    findKey key (liveEntries sp now t) = findKey key t := by
  rcases he : findKey key t with _ | e
  · refine findKey_eq_none.mpr fun e hmem => ?_
    exact findKey_eq_none.mp he e (List.mem_of_mem_filter hmem)
  · have hmem : e ∈ liveEntries sp now t := by
      simpa [liveEntries, mem_of_findKey he] using hlive e he
    rw [← key_of_findKey he]
    exact findKey_of_mem (keyNodup_liveEntries sp now ht) hmem

/-- After its update the entry under a packet's own key has the packet's time, or it was not
stale and still is not. -/
lemma ts_of_offer {o : Offer} (ho : offer rs now p nextHop ifIdx = some o) {e : RtblEntry}
    (he : findKey o.key (updateRtblEntry rs sp now p nextHop ifIdx t) = some e) :
    e.ts = now ∨ (now - e.ts ≤ sp ∧ ∃ e₀, findKey o.key t = some e₀ ∧ e.ts = e₀.ts) := by
  obtain ⟨-, -, hnow⟩ := offer_nextHop ho
  rcases h₀ : findKey o.key t with _ | e₀
  · by_cases hty : p.type = .data
    · rw [findKey_updateRtblEntry_data sp ho hty h₀] at he
      simp at he
    · obtain ⟨ip, h'⟩ := findKey_updateRtblEntry_new sp ho hty h₀
      obtain rfl := Option.some_injective _ (he.symm.trans h')
      exact Or.inl hnow
  · obtain ⟨ip, h'⟩ := findKey_updateRtblEntry_some sp ho h₀
    obtain rfl := Option.some_injective _ (he.symm.trans h')
    by_cases hst : o.now - e₀.ts > sp
    · rw [touch_stale hst]
      exact Or.inl hnow
    · rw [touch_fresh (by omega), RtblEntry.improve]
      split
      · exact Or.inl hnow
      · refine Or.inr ⟨?_, e₀, rfl, rfl⟩
        rw [← hnow]
        exact not_lt.mp hst

/-- When the entry under a key is not stale after an update. -/
lemma live_updateRtblEntry_iff (hts : ∀ e, findKey key t = some e → e.ts ≤ now) :
    (∀ e, findKey key (updateRtblEntry rs sp now p nextHop ifIdx t) = some e → now - e.ts ≤ sp) ↔
      if cameFrom rs p = some key then
        (p.type ≠ .data ∨ ∃ e, findKey key t = some e) → 0 ≤ sp
      else ∀ e, findKey key t = some e → now - e.ts ≤ sp := by
  by_cases hkey : cameFrom rs p = some key
  · have hex : (∃ e, findKey key (updateRtblEntry rs sp now p nextHop ifIdx t) = some e) ↔ _ :=
      exists_findKey_cameFrom sp hkey
    rw [if_pos hkey, ← hex]
    rw [cameFrom_eq rs now p nextHop ifIdx, Option.map_eq_some_iff] at hkey
    obtain ⟨o, ho, rfl⟩ := hkey
    have hage : ∀ e, findKey o.key (updateRtblEntry rs sp now p nextHop ifIdx t) = some e →
        (now - e.ts ≤ sp ↔ 0 ≤ sp) := by
      intro e he
      rcases ts_of_offer ho he with hnow | ⟨hlive, e₀, he₀, heq⟩
      · omega
      · have hle := hts e₀ he₀
        omega
    constructor
    · rintro h ⟨e, he⟩
      exact (hage e he).mp (h e he)
    · exact fun h e he => (hage e he).mpr (h ⟨e, he⟩)
  · rw [if_neg hkey]
    have hsame : findKey key (updateRtblEntry rs sp now p nextHop ifIdx t) = findKey key t := by
      rcases ho : offer rs now p nextHop ifIdx with _ | o
      · rw [updateRtblEntry_of_offer_none sp ho]
      · refine findKey_updateRtblEntry_ne sp ho ?_
        rintro rfl
        rw [cameFrom_eq rs now p nextHop ifIdx, ho] at hkey
        exact hkey rfl
    rw [hsame]

end Tables

namespace Network

variable {k : ℕ} {nw : Network k} {tr : List (Net k × Label k)} {σ : Net k} {f : Transit k}
  {io : UnixIo}

/-- What the daemon of the receiving node does with a frame, traced. -/
def traced (nw : Network k) (σ : Net k) (f : Transit k) (io : UnixIo) : Odr.Traced :=
  processPackAt (nw.host f.dst) (fun _ => 1) ⟨0, 0, 0, 0⟩ (srcKey nw.rs f.pack)
    (destKey nw.rs f.pack) io (fun _ => σ.clock) (σ.node f.dst) f.pack f.hwSrc f.ifindex

lemma traced_out : (nw.traced σ f io).out = nw.receive σ f io := processPackAt_eq _

/-- What the daemon does with a frame if the update leaves the table `t`. -/
def tracedWith (nw : Network k) (σ : Net k) (f : Transit k) (io : UnixIo) (t : Rtbl) :
    Odr.Traced :=
  if f.pack.WithinMaxh then
    packAt (nw.host f.dst) (fun _ => 1) ⟨0, 0, 0, 0⟩ (srcKey nw.rs f.pack)
      (destKey nw.rs f.pack) io t (σ.node f.dst) f.pack f.ifindex
  else nw.traced σ f io

lemma traced_eq : nw.traced σ f io = nw.tracedWith σ f io (nw.learned σ f).rtbl := by
  rw [tracedWith]
  split
  · next hop =>
    rw [traced, processPackAt_of_within hop, clockedUpdateAt_const]
    rfl
  · rfl

/-- The entry that a request for this key uses at node `n`. -/
def cached (nw : Network k) (σ : Net k) (n : Fin k) (req : OdrReq) : Option RtblEntry :=
  if skipDiscovery nw.rs (σ.node n) req then
    findKey (getIndexFromIp nw.rs (requestDest nw.rs (σ.node n) req)) (σ.node n).rtbl
  else none

/-- The table of node `n` without its stale entries. -/
def live (nw : Network k) (σ : Net k) (n : Fin k) (t : Rtbl) : Rtbl :=
  liveEntries (nw.host n).sp σ.clock t

/-- No entry that the step uses is stale, and its frames are those that the step would send if the
stale entries were not in the table. -/
structure IgnoresStale (nw : Network k) (pre : List (Net k × Label k)) (x : Net k × Label k) :
    Prop where
  request : ∀ n client req, x.2 = .request n client req →
    (∀ e ∈ nw.cached x.1 n req, x.1.clock - e.ts ≤ (nw.host n).sp) ∧
      (nw.request x.1 n client req).sent =
        (mainRequest nw.rs (nw.host n) (fun _ => 1)
          { x.1.node n with rtbl := nw.live x.1 n (x.1.node n).rtbl } client req).sent
  receive : ∀ i io f, x.2 = .deliver i io → x.1.wire[i]? = some f →
    (∀ e ∈ (nw.traced x.1 f io).used, x.1.clock - e.ts ≤ (nw.host f.dst).sp) ∧
      (nw.receive x.1 f io).sent =
        (nw.tracedWith x.1 f io (nw.live x.1 f.dst (nw.learned x.1 f).rtbl)).out.sent

/-- The key of a delivered packet that is consulted, if the packet passes the hop check. -/
def consults (nw : Network k) (σ : Net k) (f : Transit k) (io : UnixIo) : Option ℤ :=
  if f.pack.WithinMaxh then
    consulted (nw.host f.dst) (srcKey nw.rs f.pack) (destKey nw.rs f.pack) io (σ.node f.dst) f.pack
  else none

/-- The entry that answers a request is not stale.  Neither is the entry under the key that a
packet consults, unless this is the key of the node that the packet comes from; under that key
the staleness parameter is not negative, or the packet is DATA and there is no entry. -/
structure FindsLive (nw : Network k) (pre : List (Net k × Label k)) (x : Net k × Label k) :
    Prop where
  request : ∀ n client req, x.2 = .request n client req →
    ∀ e ∈ nw.cached x.1 n req, x.1.clock - e.ts ≤ (nw.host n).sp
  receive : ∀ i io f, x.2 = .deliver i io → x.1.wire[i]? = some f →
    ∀ key ∈ nw.consults x.1 f io,
      if cameFrom nw.rs f.pack = some key then
        (f.pack.type ≠ .data ∨ ∃ e, findKey key (x.1.node f.dst).rtbl = some e) →
          0 ≤ (nw.host f.dst).sp
      else ∀ e, findKey key (x.1.node f.dst).rtbl = some e →
        x.1.clock - e.ts ≤ (nw.host f.dst).sp

/-! ## Time stamps -/

/-- No entry has a time stamp in the future. -/
lemma ts_le_clock (hr : nw.system.Reach (fun _ _ => True) σ) :
    ∀ n key e, findKey key (σ.node n).rtbl = some e → e.ts ≤ σ.clock := by
  refine hr.invariant (I := fun σ => ∀ n key e, findKey key (σ.node n).rtbl = some e →
    e.ts ≤ σ.clock) ?_ ?_
  · intro σ h n key e he
    rw [(h.node n).rtbl, findKey_nil] at he
    simp at he
  · rintro σ l σ' - ih - hs n key e he
    have hclock : σ.clock ≤ σ'.clock := by
      cases steps_of_step hs with
      | request => exact le_rfl
      | deliver => exact le_rfl
      | lose => exact le_rfl
      | tick d => simp
    refine le_trans ?_ hclock
    cases (steps_of_step hs).node n with
    | same hl h =>
      rw [h] at he
      exact ih n key e he
    | request client req hl h =>
      rw [h] at he
      exact ih n key e he
    | deliver i io f hl hf hm h =>
      subst hm
      rw [h, rtbl_receive] at he
      split at he
      · rcases findKey_updateRtblEntry_cases _ he with ⟨e₀, ip, he₀, rfl⟩ | ⟨o, -, -, -, -, hts, -⟩
        · exact ih f.dst key e₀ he₀
        · exact hts.le
      · exact ih f.dst key e he

/-! ## One step -/

lemma used_traced : (nw.traced σ f io).used =
    ((nw.consults σ f io).bind fun key => findKey key (nw.learned σ f).rtbl).toList := by
  rw [consults]
  split
  · next hop =>
    rw [traced_eq, tracedWith, if_pos hop]
    exact used_packAt
  · next hop =>
    rw [traced, processPackAt_of_over (OdrPack.over_of_not hop)]
    rfl

lemma mem_used_traced {e : RtblEntry} : e ∈ (nw.traced σ f io).used ↔
    ∃ key ∈ nw.consults σ f io, findKey key (nw.learned σ f).rtbl = some e := by
  rw [used_traced, Option.mem_toList, Option.bind_eq_some_iff]
  rfl

/-- If the entries that are used are not stale, the stale ones make no difference. -/
lemma sent_tracedWith_live (hwf : nw.Wf σ)
    (hlive : ∀ e ∈ (nw.traced σ f io).used, σ.clock - e.ts ≤ (nw.host f.dst).sp) :
    (nw.receive σ f io).sent =
      (nw.tracedWith σ f io (nw.live σ f.dst (nw.learned σ f).rtbl)).out.sent := by
  rw [← traced_out, traced_eq, tracedWith, tracedWith]
  split
  · next hop =>
    have ht : KeyNodup (nw.learned σ f).rtbl := keyNodup_updateRtblEntry _ (hwf.nodup f.dst)
    have hagree : ∀ key ∈ consulted (nw.host f.dst) (srcKey nw.rs f.pack) (destKey nw.rs f.pack)
        io (σ.node f.dst) f.pack, findKey key (nw.live σ f.dst (nw.learned σ f).rtbl)
          = findKey key (nw.learned σ f).rtbl := by
      intro key hkey
      refine findKey_liveEntries ht fun e he => hlive e (mem_used_traced.mpr ⟨key, ?_, he⟩)
      rw [consults, if_pos hop]
      exact hkey
    rw [packAt_congr (keyNodup_liveEntries _ _ ht) ht hagree]
    rfl
  · rfl

/-- A request is answered from the live entries if it is answered from a live entry. -/
lemma skipDiscovery_live (hwf : nw.Wf σ) {n : Fin k} {req : OdrReq}
    (hlive : ∀ e ∈ nw.cached σ n req, σ.clock - e.ts ≤ (nw.host n).sp) :
    skipDiscovery nw.rs { σ.node n with rtbl := nw.live σ n (σ.node n).rtbl } req
      = skipDiscovery nw.rs (σ.node n) req := by
  by_cases hforced : req.forcedDiscovery = 0
  · have hagree : findKey (getIndexFromIp nw.rs (requestDest nw.rs (σ.node n) req))
        (nw.live σ n (σ.node n).rtbl)
          = findKey (getIndexFromIp nw.rs (requestDest nw.rs (σ.node n) req)) (σ.node n).rtbl := by
      refine findKey_liveEntries (hwf.nodup n) fun e he => hlive e ?_
      have hskip : skipDiscovery nw.rs (σ.node n) req = true := by
        exact decide_eq_true ⟨entryExistsForSrc_ne_zero.mpr ⟨e, he⟩, hforced⟩
      rw [cached, if_pos hskip]
      exact he
    have hex := entryExistsForSrc_congr hagree
    rw [Bool.eq_iff_iff, skipDiscovery, skipDiscovery, decide_eq_true_eq, decide_eq_true_eq]
    exact and_congr (not_congr (by rw [← hex]; rfl)) Iff.rfl
  · simp [skipDiscovery, hforced]

/-- The same for a request. -/
lemma sent_request_live (hwf : nw.Wf σ) {n : Fin k} {client : UnAddr} {req : OdrReq}
    (hlive : ∀ e ∈ nw.cached σ n req, σ.clock - e.ts ≤ (nw.host n).sp) :
    (nw.request σ n client req).sent =
      (mainRequest nw.rs (nw.host n) (fun _ => 1)
        { σ.node n with rtbl := nw.live σ n (σ.node n).rtbl } client req).sent := by
  have hskip := skipDiscovery_live hwf hlive
  dsimp only [request, mainRequest, rreqPack]
  rw [hskip]
  by_cases hyes : skipDiscovery nw.rs (σ.node n) req = true
  · rw [if_pos hyes, if_pos hyes]
    rw [cached, if_pos hyes] at hlive
    have ht := hwf.nodup n
    exact congrArg Prod.fst (sendPayload_congr (keyNodup_liveEntries _ _ ht) ht
      (findKey_liveEntries ht hlive) _ _ _).symm
  · rw [if_neg hyes, if_neg hyes, if_neg hyes]
    rfl

lemma ignoresStale_iff (hr : nw.system.Reach (fun _ _ => True) σ) (l : Label k) :
    nw.IgnoresStale tr (σ, l) ↔ nw.FindsLive tr (σ, l) := by
  have hwf := wf_of_reach hr
  have hiff : ∀ f io, (∀ e ∈ (nw.traced σ f io).used, σ.clock - e.ts ≤ (nw.host f.dst).sp) ↔
      ∀ key ∈ nw.consults σ f io,
        if cameFrom nw.rs f.pack = some key then
          (f.pack.type ≠ .data ∨ ∃ e, findKey key (σ.node f.dst).rtbl = some e) →
            0 ≤ (nw.host f.dst).sp
        else ∀ e, findKey key (σ.node f.dst).rtbl = some e →
          σ.clock - e.ts ≤ (nw.host f.dst).sp := by
    intro f io
    have hkey : ∀ key, (∀ e, findKey key (nw.learned σ f).rtbl = some e →
        σ.clock - e.ts ≤ (nw.host f.dst).sp) ↔ _ :=
      fun key => live_updateRtblEntry_iff (ts_le_clock hr f.dst key)
    constructor
    · intro h key hc
      exact (hkey key).mp fun e he => h e (mem_used_traced.mpr ⟨key, hc, he⟩)
    · intro h e he
      obtain ⟨key, hc, he⟩ := mem_used_traced.mp he
      exact (hkey key).mpr (h key hc) e he
  constructor
  · rintro ⟨hreq, hrec⟩
    exact ⟨fun n client req hl => (hreq n client req hl).1,
      fun i io f hl hf => (hiff f io).mp (hrec i io f hl hf).1⟩
  · rintro ⟨hreq, hrec⟩
    refine ⟨fun n client req hl => ?_, fun i io f hl hf => ?_⟩
    · exact ⟨hreq n client req hl, sent_request_live hwf (hreq n client req hl)⟩
    · have hlive := (hiff f io).mpr (hrec i io f hl hf)
      exact ⟨hlive, sent_tracedWith_live hwf hlive⟩

/-- **When stale entries are ignored.** In every run, no stale entry is used and every step sends
what it would send without the stale entries, if and only if at every step the entry that answers
a request is not stale, nor is the entry that a packet consults, except under the key of the node
that the packet itself comes from, which the packet has renewed. -/
theorem stale_ignored_iff (hr : nw.system.Run (fun _ _ => True) tr σ) :
    Along nw.IgnoresStale tr ↔ Along nw.FindsLive tr :=
  hr.along_congr fun _ _ l _ hr _ _ => ignoresStale_iff hr.reach l

/-- The first node of a pair learns of the second, and ten seconds pass. -/
def pairAged : List (Label 2) := [asks 1 0 8, .deliver 0 (answering []), .tick 10]

theorem stale_ignored_pair :
    Along pair.IgnoresStale (pair.system.trace start pairAged) ↔
      Along pair.FindsLive (pair.system.trace start pairAged) :=
  stale_ignored_iff (run_after (by decide +kernel) fun _ _ => trivial)

/-- The entry, which is stale after five seconds, answers a request. -/
theorem stale_entry_used :
    ¬∀ (nw : Network 2) tr σ, nw.system.Run (fun _ _ => True) tr σ →
      Along nw.IgnoresStale tr := by
  intro h
  have hal : Along pair.IgnoresStale (pair.system.trace start (pairAged ++ [asks 0 0 1])) :=
    h pair _ _ (run_after (by decide +kernel) fun _ _ => trivial)
  rw [trace_after (by decide +kernel), along_snoc] at hal
  have hstale : ∃ e ∈ pair.cached (after pair pairAged) 0 (ask 1),
      (pair.host 0).sp < (after pair pairAged).clock - e.ts := by decide +kernel
  obtain ⟨e, he, hold⟩ := hstale
  exact absurd ((hal.2.request 0 (.client 0) (ask 1) rfl).1 e he) (not_le.mpr hold)

end Network

end Odr
