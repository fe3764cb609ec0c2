/-
# The RREQ block and the RREP block

`update_rtbl_entry` files an RREQ under its source and an RREP under its destination with two
copies of one block.  The copies differ in one word: where an entry is stale, the RREP block
still compares its hop count with `rreq.hop`, a field that an RREP carries on from the RREQ it
answers.  `updates_agree_iff` says for which tables and packets this shows.

The second pass over an RREQ with `rrep_sent` shows too, but only if `sp` is negative: an entry
that the first pass has improved is then stale to the second one, which writes its address.
-/
import Odr.Source.Handled
import Odr.Table.Representation
import Odr.Network.Lab

namespace Odr

/-- The first entry with a key that is stale at a time. -/
def firstStale (sp now key : ℤ) (t : Rtbl) : Option RtblEntry :=
  t.find? fun e => e.key = key ∧ now - e.ts > sp

/-- The first entry with a key that takes more than `hop` hops. -/
def firstLonger (hop key : ℤ) (t : Rtbl) : Option RtblEntry :=
  t.find? fun e => e.key = key ∧ hop < e.hop

/-- What the loop does to an entry as long as none is stale. -/
def RtblEntry.refresh (o : Offer) (e : RtblEntry) : RtblEntry :=
  if e.key = o.key then e.improve o else e

section

variable {sp : ℤ} {o : Offer} {t t₁ t₂ : Rtbl} {e : RtblEntry}

lemma refresh_of_le (h : e.key = o.key → e.hop ≤ o.hop) : e.refresh o = e := by
  rw [RtblEntry.refresh]
  split
  · next hk => exact improve_of_le (h hk)
  · rfl

lemma refresh_refresh (o : Offer) (e : RtblEntry) : (e.refresh o).refresh o = e.refresh o := by
  by_cases hk : e.key = o.key
  · refine refresh_of_le fun _ => ?_
    rw [RtblEntry.refresh, if_pos hk, improve_hop]
    omega
  · have hsame : e.refresh o = e := if_neg hk
    rw [hsame, hsame]

lemma map_refresh_refresh (o : Offer) (t : Rtbl) :
    (t.map (RtblEntry.refresh o)).map (RtblEntry.refresh o) = t.map (RtblEntry.refresh o) := by
  rw [List.map_map]
  exact List.map_congr_left fun e _ => refresh_refresh o e

lemma updateLoop_fresh (h : ∀ e ∈ t, e.key = o.key → o.now - e.ts ≤ sp) :
    updateLoop sp o t = (t.map (RtblEntry.refresh o), false) := by
  induction t with
  | nil => rfl
  | cons e t ih =>
    have ih := ih fun e he => h e (List.mem_cons_of_mem _ he)
    rw [updateLoop, ih]
    by_cases hk : e.key = o.key
    · have hfresh := h e List.mem_cons_self hk
      rw [if_pos hk, if_neg (by omega), List.map_cons, RtblEntry.refresh, if_pos hk]
    · rw [if_neg hk, List.map_cons, RtblEntry.refresh, if_neg hk]

/-- The loop ends at the first stale entry. -/
lemma updateLoop_stale (h : ∀ e ∈ t₁, e.key = o.key → o.now - e.ts ≤ sp) (hk : e.key = o.key)
    (hst : o.now - e.ts > sp) :
    updateLoop sp o (t₁ ++ e :: t₂)
      = (t₁.map (RtblEntry.refresh o) ++ e.replaceStale o :: t₂, true) := by
  induction t₁ with
  | nil => rw [List.nil_append, updateLoop, if_pos hk, if_pos hst]; rfl
  | cons a t₁ ih =>
    have ih := ih fun e he => h e (List.mem_cons_of_mem _ he)
    rw [List.cons_append, updateLoop, ih]
    by_cases hka : a.key = o.key
    · have hfresh := h a List.mem_cons_self hka
      rw [if_pos hka, if_neg (by omega), List.map_cons, RtblEntry.refresh, if_pos hka]
      rfl
    · rw [if_neg hka, List.map_cons, RtblEntry.refresh, if_neg hka]
      rfl

/-! ## The first entry with a property -/

lemma not_of_find?_none {key : ℤ} {P : RtblEntry → Prop} [DecidablePred P]
    (h : t.find? (fun e => e.key = key ∧ P e) = none) : ∀ e ∈ t, e.key = key → ¬P e := by
  intro e he hk
  simpa [hk] using List.find?_eq_none.mp h e he

lemma exists_of_find?_some {key : ℤ} {P : RtblEntry → Prop} [DecidablePred P]
    (h : t.find? (fun e => e.key = key ∧ P e) = some e) :
    e.key = key ∧ P e ∧ ∃ t₁ t₂, t = t₁ ++ e :: t₂ ∧ ∀ a ∈ t₁, a.key = key → ¬P a := by
  obtain ⟨hp, t₁, t₂, ht, hpre⟩ := List.find?_eq_some_iff_append.mp h
  obtain ⟨hk, hP⟩ := of_decide_eq_true hp
  refine ⟨hk, hP, t₁, t₂, ht, fun a ha hka => ?_⟩
  simpa [hka] using hpre a ha

lemma fresh_of_firstStale_none (h : firstStale sp o.now o.key t = none) :
    ∀ e ∈ t, e.key = o.key → o.now - e.ts ≤ sp :=
  fun e he hk => not_lt.mp (not_of_find?_none h e he hk)

lemma exists_of_firstStale_some (h : firstStale sp o.now o.key t = some e) :
    e.key = o.key ∧ o.now - e.ts > sp ∧ ∃ t₁ t₂, t = t₁ ++ e :: t₂ ∧
      ∀ a ∈ t₁, a.key = o.key → o.now - a.ts ≤ sp := by
  obtain ⟨hk, hst, t₁, t₂, ht, hpre⟩ := exists_of_find?_some h
  exact ⟨hk, hst, t₁, t₂, ht, fun a ha hka => not_lt.mp (hpre a ha hka)⟩

lemma le_of_firstLonger_none (h : firstLonger o.hop o.key t = none) :
    ∀ e ∈ t, e.key = o.key → e.hop ≤ o.hop :=
  fun e he hk => not_lt.mp (not_of_find?_none h e he hk)

lemma exists_of_firstLonger_some (h : firstLonger o.hop o.key t = some e) :
    e.key = o.key ∧ o.hop < e.hop ∧ ∃ t₁ t₂, t = t₁ ++ e :: t₂ ∧
      ∀ a ∈ t₁, a.key = o.key → a.hop ≤ o.hop := by
  obtain ⟨hk, hlt, t₁, t₂, ht, hpre⟩ := exists_of_find?_some h
  exact ⟨hk, hlt, t₁, t₂, ht, fun a ha hka => not_lt.mp (hpre a ha hka)⟩

/-! ## A pass after a pass -/

lemma map_refresh_of_le (h : ∀ e ∈ t, e.key = o.key → e.hop ≤ o.hop) :
    t.map (RtblEntry.refresh o) = t := by
  conv_rhs => rw [← List.map_id t]
  exact List.map_congr_left fun e he => refresh_of_le (h e he)

/-- An improved entry that is replaced keeps everything but its address. -/
lemma replaceStale_improve (hh : o.staleHop = o.hop) (hk : e.key = o.key) (hlt : o.hop < e.hop) :
    (e.improve o).replaceStale o = e.improve o ↔ e.destCanIpStr = o.ip := by
  rw [improve_of_lt hlt, RtblEntry.replaceStale]
  simp [hh, hk, eq_comm]

lemma replaceStale_eq_iff (hh : o.staleHop = o.hop) {x : ℤ} :
    e.replaceStale o = e.replaceStale { o with staleHop := x } ↔
      min e.hop x = min e.hop o.hop := by
  constructor
  · intro h
    have hhop := congrArg RtblEntry.hop h
    rw [replaceStale_hop, replaceStale_hop, hh] at hhop
    exact hhop.symm
  · intro h
    have hhop : (e.replaceStale o).hop = (e.replaceStale { o with staleHop := x }).hop := by
      rw [replaceStale_hop, replaceStale_hop, hh]
      exact h.symm
    simp only [RtblEntry.replaceStale] at hhop ⊢
    rw [hhop]

/-- What a second pass over a table without stale entries does. -/
lemma second_pass (hfresh : ∀ e ∈ t, e.key = o.key → o.now - e.ts ≤ sp)
    (hh : o.staleHop = o.hop) :
    (updateLoop sp o (t.map (RtblEntry.refresh o))).1 = t.map (RtblEntry.refresh o) ↔
      (sp < 0 → ∀ e, firstLonger o.hop o.key t = some e → e.destCanIpStr = o.ip) := by
  by_cases hsp : sp < 0
  · rcases hl : firstLonger o.hop o.key t with _ | e
    · have hle := le_of_firstLonger_none hl
      rw [map_refresh_of_le hle, updateLoop_fresh hfresh, map_refresh_of_le hle]
      simp
    · obtain ⟨hk, hlt, t₁, t₂, rfl, hpre⟩ := exists_of_firstLonger_some hl
      have hmap : (t₁ ++ e :: t₂).map (RtblEntry.refresh o)
          = t₁ ++ e.improve o :: t₂.map (RtblEntry.refresh o) := by
        rw [List.map_append, List.map_cons, map_refresh_of_le hpre, RtblEntry.refresh, if_pos hk]
      -- the improved entry carries the time of the offer, so it is stale if `sp` is negative
      have hst : o.now - (e.improve o).ts > sp := by
        rw [improve_of_lt hlt]
        simpa using hsp
      rw [hmap, updateLoop_stale (fun a ha => hfresh a (List.mem_append_left _ ha))
        (by rw [improve_key, hk]) hst, map_refresh_of_le hpre]
      simp only [List.append_cancel_left_eq, List.cons.injEq, and_true, Option.some.injEq,
        forall_eq', replaceStale_improve hh hk hlt, hsp, true_imp_iff]
  · have hfresh' : ∀ e ∈ t.map (RtblEntry.refresh o), e.key = o.key → o.now - e.ts ≤ sp := by
      intro e he hka
      obtain ⟨a, ha, rfl⟩ := List.mem_map.mp he
      by_cases hk : a.key = o.key
      · rw [RtblEntry.refresh, if_pos hk, RtblEntry.improve]
        split
        · simp only
          omega
        · exact hfresh a ha hk
      · have hsame : a.refresh o = a := if_neg hk
        exact absurd (hsame ▸ hka) hk
    rw [updateLoop_fresh hfresh', map_refresh_refresh]
    simp [hsp]

/-- A missing entry is added by both blocks, and a second pass leaves it as it is. -/
lemma updateOrAdd_new (hex : entryExistsForSrc o.key t ≠ 1) (hh : o.staleHop = o.hop)
    (added : RtblEntry) :
    (updateOrAdd sp o added (t ++ [o.entry])).1 = t ++ [o.entry] := by
  have hnot := findKey_eq_none.mp (entryExistsForSrc_ne_one.mp hex)
  have hpre : ∀ e ∈ t, e.key = o.key → o.now - e.ts ≤ sp := fun e he hk => absurd hk (hnot e he)
  have hmap : t.map (RtblEntry.refresh o) = t :=
    map_refresh_of_le fun e he hk => absurd hk (hnot e he)
  rw [updateOrAdd, if_pos (by simp [entryExistsForSrc, Offer.entry])]
  by_cases hst : o.now - o.entry.ts > sp
  · have hsame : o.entry.replaceStale o = o.entry := by
      simp [RtblEntry.replaceStale, Offer.entry, hh]
    rw [updateLoop_stale hpre rfl hst, hmap, hsame]
  · have hsame : o.entry.refresh o = o.entry := refresh_of_le fun _ => le_rfl
    rw [updateLoop_fresh, List.map_append, List.map_singleton, hmap, hsame]
    intro e he hk
    rcases List.mem_append.mp he with he | he
    · exact hpre e he hk
    · rw [List.mem_singleton.mp he]
      exact not_lt.mp hst

/-- The block of an RREQ and the block that compares a stale entry with `x` instead. -/
lemma blocks_agree_iff (sp x : ℤ) (t : Rtbl) (hh : o.staleHop = o.hop) (added : RtblEntry)
    (twice : Prop) [Decidable twice] :
    (let r := updateOrAdd sp o o.entry t
      if r.2 then r.1 else if twice then (updateOrAdd sp o added r.1).1 else r.1)
        = (updateOrAdd sp { o with staleHop := x } o.entry t).1 ↔
      (∀ e, firstStale sp o.now o.key t = some e → min e.hop x = min e.hop o.hop) ∧
        (twice → firstStale sp o.now o.key t = none → sp < 0 →
          ∀ e, firstLonger o.hop o.key t = some e → e.destCanIpStr = o.ip) := by
  by_cases hex : entryExistsForSrc o.key t = 1
  · have h₁ : updateOrAdd sp o o.entry t = updateLoop sp o t := if_pos hex
    have h₂ : updateOrAdd sp { o with staleHop := x } o.entry t
        = updateLoop sp { o with staleHop := x } t := if_pos hex
    rw [h₁, h₂]
    rcases hs : firstStale sp o.now o.key t with _ | e
    · have hfresh := fresh_of_firstStale_none hs
      have hother : updateLoop sp { o with staleHop := x } t
          = (t.map (RtblEntry.refresh o), false) := updateLoop_fresh hfresh
      rw [updateLoop_fresh hfresh, hother]
      by_cases htw : twice
      · have hex' : entryExistsForSrc o.key (t.map (RtblEntry.refresh o)) = 1 := by
          have hkeys := map_key_updateLoop sp o t
          rw [updateLoop_fresh hfresh] at hkeys
          exact entryExistsForSrc_of_map_key (hkeys ▸ List.prefix_rfl) hex
        have h₃ : updateOrAdd sp o added (t.map (RtblEntry.refresh o))
          = updateLoop sp o (t.map (RtblEntry.refresh o)) := if_pos hex'
        simp [htw, h₃, second_pass hfresh hh]
      · simp [htw]
    · obtain ⟨hk, hst, t₁, t₂, rfl, hpre⟩ := exists_of_firstStale_some hs
      have hother : updateLoop sp { o with staleHop := x } (t₁ ++ e :: t₂)
          = (t₁.map (RtblEntry.refresh o) ++ e.replaceStale { o with staleHop := x } :: t₂, true) :=
        updateLoop_stale hpre hk hst
      rw [updateLoop_stale hpre hk hst, hother]
      simp [replaceStale_eq_iff hh]
  · have hnot := findKey_eq_none.mp (entryExistsForSrc_ne_one.mp hex)
    have h₁ : updateOrAdd sp o o.entry t = (t ++ [o.entry], false) := if_neg hex
    have h₂ : updateOrAdd sp { o with staleHop := x } o.entry t = (t ++ [o.entry], false) :=
      if_neg hex
    have hstale : firstStale sp o.now o.key t = none :=
      List.find?_eq_none.mpr fun e he => by simp [hnot e he]
    have hlonger : firstLonger o.hop o.key t = none :=
      List.find?_eq_none.mpr fun e he => by simp [hnot e he]
    rw [h₁, h₂, hstale, hlonger]
    simp [updateOrAdd_new hex hh]

end

/-- **When an RREQ and an RREP leave the same table.** For every table, an RREQ from an address
and an RREP to it that come from the same neighbour at the same time with the same hop count
leave the same table if and only if two things hold.  The hop count of the first stale entry
with the key is not told apart by the RREP's leftover `rreq.hop`; and if `rrep_sent` is set, `sp`
is negative and no entry with the key is stale, the first one that takes more hops than offered
already has the RREQ's source as its address. -/
theorem updates_agree_iff (rs : Resolver) (sp now : ℤ) (t : Rtbl) (p q : OdrPack)
    (nextHop : HwAddr) (ifIdx : ℤ) (hp : p.type = .rreq) (hq : q.type = .rrep)
    (haddr : q.destCanIpStr = p.srcCanIpStr) (hhop : q.rrep.hop = p.rreq.hop) :
    updateRtblEntry rs sp now p nextHop ifIdx t = updateRtblEntry rs sp now q nextHop ifIdx t ↔
      (∀ e, firstStale sp now (srcKey rs p) t = some e →
        min e.hop q.rreq.hop = min e.hop p.rreq.hop) ∧
      (p.rreq.rrepSent = 1 → firstStale sp now (srcKey rs p) t = none → sp < 0 →
        ∀ e, firstLonger p.rreq.hop (srcKey rs p) t = some e → e.destCanIpStr = p.srcCanIpStr) := by
  let o := srcOffer rs now p nextHop ifIdx p.rreq.hop p.rreq.hop
  have hother : destOffer rs now q nextHop ifIdx q.rreq.hop q.rrep.hop
      = { o with staleHop := q.rreq.hop } := by
    simp only [destOffer, haddr, hhop]
    rfl
  have hrrep : updateRtblEntry rs sp now q nextHop ifIdx t
      = (updateOrAdd sp { o with staleHop := q.rreq.hop } o.entry t).1 := by
    rw [updateRtblEntry, hq]
    simp only [hother]
    rfl
  have hrreq : updateRtblEntry rs sp now p nextHop ifIdx t
      = let r := updateOrAdd sp o o.entry t
        if r.2 then r.1 else if p.rreq.rrepSent = 1 then
          (updateOrAdd sp o { o.entry with destCanIpStr := p.destCanIpStr } r.1).1 else r.1 := by
    rw [updateRtblEntry, hp]
  rw [hrreq, hrrep]
  exact blocks_agree_iff sp q.rreq.hop t rfl _ _

/-- A table with an entry of five hops, learnt at the time 0. -/
def fiveHops : Rtbl := [⟨1, Lab.ip 0, 7, 1, 5, 0⟩]

/-- An RREQ from the first machine that has crossed three links. -/
def threeLinks : OdrPack :=
  { Lab.blankPack with type := .rreq, srcCanIpStr := Lab.ip 0, rreq := ⟨3, 1, 0, 0⟩ }

/-- An RREP to the first machine that has crossed as many, and answers an RREQ that had crossed
one. -/
def threeLinksBack : OdrPack :=
  { Lab.blankPack with
    type := .rrep, destCanIpStr := Lab.ip 0, rreq := ⟨1, 1, 0, 0⟩, rrep := ⟨3, 1, 0⟩ }

/-- While the entry is fresh the two leave the same table. -/
theorem updates_agree_fresh :
    updateRtblEntry Lab.resolver 5 4 threeLinks 9 2 fiveHops
      = updateRtblEntry Lab.resolver 5 4 threeLinksBack 9 2 fiveHops :=
  have hfresh : firstStale 5 4 (srcKey Lab.resolver threeLinks) fiveHops = none := by decide
  (updates_agree_iff Lab.resolver 5 4 fiveHops threeLinks threeLinksBack 9 2 rfl rfl rfl rfl).mpr
    ⟨fun e he => by simp [hfresh] at he, fun h => absurd h (by decide)⟩

/-- With the entry stale, the RREQ leaves three hops and the RREP one. -/
theorem updates_differ :
    ¬∀ rs sp now t p q nextHop ifIdx, p.type = .rreq → q.type = .rrep →
      q.destCanIpStr = p.srcCanIpStr → q.rrep.hop = p.rreq.hop →
      updateRtblEntry rs sp now p nextHop ifIdx t
        = updateRtblEntry rs sp now q nextHop ifIdx t := by
  intro h
  have hsame := h Lab.resolver 5 6 fiveHops threeLinks threeLinksBack 9 2 rfl rfl rfl rfl
  exact absurd hsame (by decide +kernel)

end Odr
