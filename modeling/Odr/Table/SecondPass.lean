/-
# The pass for `rrep_sent`

In the RREQ case of `update_rtbl_entry` the whole block stands twice.  The second copy runs if the
packet has `rrep_sent` set and the first one has not returned; it looks the source's key up again,
on the table that the first copy has just left, and its insertion would store the address of the
destination under that key.

The insertion never happens, since the first pass leaves an entry under the key.  And as long as
no entry is dated in the future, the pass finds nothing to do: an entry that the first pass has
improved was not stale before, so `sp` is not negative and it is not stale now; and one that it has
inserted holds what it would be replaced by.
-/
import Odr.Table.Siblings

namespace Odr

section

variable (rs : Resolver) (sp now : ℤ) (p : OdrPack) (nextHop : HwAddr) (ifIdx : ℤ) (t : Rtbl)

/-- The offer that both passes make. -/
def rreqOffer : Offer := srcOffer rs now p nextHop ifIdx p.rreq.hop p.rreq.hop

/-- The table after the first pass, and whether `update_rtbl_entry` has returned. -/
def firstPass : Rtbl × Bool :=
  updateOrAdd sp (rreqOffer rs now p nextHop ifIdx) (rreqOffer rs now p nextHop ifIdx).entry t

/-- The second pass is run and its test for an entry under the source's key fails. -/
def SecondPassInserts : Prop :=
  (firstPass rs sp now p nextHop ifIdx t).2 = false ∧ p.rreq.rrepSent = 1 ∧
    entryExistsForSrc (getIndexFromIp rs p.srcCanIpStr.str)
      (firstPass rs sp now p nextHop ifIdx t).1 ≠ 1

/-- The packet with the flag set or cleared. -/
def OdrPack.withRrepSent (p : OdrPack) (flag : ℤ) : OdrPack :=
  { p with rreq := { p.rreq with rrepSent := flag } }

variable {rs sp now p nextHop ifIdx t}

/-- The RREQ case, with the branches of the second pass written out. -/
lemma updateRtblEntry_rreq (hp : p.type = .rreq) :
    updateRtblEntry rs sp now p nextHop ifIdx t =
      let o := rreqOffer rs now p nextHop ifIdx
      let r := firstPass rs sp now p nextHop ifIdx t
      if r.2 then r.1
      else if p.rreq.rrepSent = 1 then
        if entryExistsForSrc o.key r.1 = 1 then (updateLoop sp o r.1).1
        else r.1 ++ [{ o.entry with destCanIpStr := p.destCanIpStr }]
      else r.1 := by
  have hsecond : ∀ t' : Rtbl,
      (updateOrAdd sp (rreqOffer rs now p nextHop ifIdx)
        { (rreqOffer rs now p nextHop ifIdx).entry with destCanIpStr := p.destCanIpStr } t').1 =
      if entryExistsForSrc (rreqOffer rs now p nextHop ifIdx).key t' = 1 then
        (updateLoop sp (rreqOffer rs now p nextHop ifIdx) t').1
      else t' ++ [{ (rreqOffer rs now p nextHop ifIdx).entry with
        destCanIpStr := p.destCanIpStr }] := by
    intro t'
    rw [updateOrAdd, apply_ite Prod.fst]
  simp only [← hsecond]
  rw [updateRtblEntry, hp]
  rfl

/-- The first pass leaves an entry under the key of the source. -/
lemma entryExistsForSrc_firstPass :
    entryExistsForSrc (getIndexFromIp rs p.srcCanIpStr.str)
      (firstPass rs sp now p nextHop ifIdx t).1 = 1 :=
  entryExistsForSrc_eq_one_iff.mpr
    ⟨_, findKey_updateOrAdd_self (o := rreqOffer rs now p nextHop ifIdx) rfl t⟩

/-- If the first pass does not return, the table that it leaves is not changed by another one. -/
lemma updateLoop_firstPass (hts : ∀ e ∈ t, e.ts ≤ now)
    (hret : (firstPass rs sp now p nextHop ifIdx t).2 = false) :
    (updateLoop sp (rreqOffer rs now p nextHop ifIdx)
      (firstPass rs sp now p nextHop ifIdx t).1).1
        = (firstPass rs sp now p nextHop ifIdx t).1 := by
  rw [firstPass] at hret ⊢
  set o := rreqOffer rs now p nextHop ifIdx
  have hh : o.staleHop = o.hop := rfl
  by_cases hex : entryExistsForSrc o.key t = 1
  · have hloop : updateOrAdd sp o o.entry t = updateLoop sp o t := if_pos hex
    rw [hloop] at hret ⊢
    rcases hs : firstStale sp o.now o.key t with _ | e
    · have hfresh := fresh_of_firstStale_none hs
      rw [updateLoop_fresh hfresh, second_pass hfresh hh]
      -- with a negative `sp` an entry that is not stale is dated in the future
      intro hneg e he
      obtain ⟨hk, -, t₁, t₂, rfl, -⟩ := exists_of_firstLonger_some he
      have hage := hfresh e (by simp) hk
      have hpast : e.ts ≤ o.now := hts e (by simp)
      omega
    · obtain ⟨hk, hst, t₁, t₂, rfl, hpre⟩ := exists_of_firstStale_some hs
      rw [updateLoop_stale hpre hk hst] at hret
      exact absurd hret (by simp)
  · have hadd : updateOrAdd sp o o.entry t = (t ++ [o.entry], false) := if_neg hex
    have hnew : (updateOrAdd sp o o.entry (t ++ [o.entry])).1 = t ++ [o.entry] :=
      updateOrAdd_new hex hh o.entry
    have hex' : entryExistsForSrc o.key (t ++ [o.entry]) = 1 := by
      simp [entryExistsForSrc, Offer.entry]
    rw [updateOrAdd, if_pos hex'] at hnew
    rw [hadd]
    exact hnew

/-- The second pass changes nothing, whether it runs or not. -/
lemma updateRtblEntry_eq_firstPass (hp : p.type = .rreq) (hts : ∀ e ∈ t, e.ts ≤ now) :
    updateRtblEntry rs sp now p nextHop ifIdx t = (firstPass rs sp now p nextHop ifIdx t).1 := by
  rw [updateRtblEntry_rreq hp]
  rcases hret : (firstPass rs sp now p nextHop ifIdx t).2 with _ | _
  · have hex : entryExistsForSrc (rreqOffer rs now p nextHop ifIdx).key
        (firstPass rs sp now p nextHop ifIdx t).1 = 1 := entryExistsForSrc_firstPass
    simp [hret, hex, updateLoop_firstPass hts hret]
  · simp [hret]

end

/-- **The second pass is redundant.** For every RREQ, neighbour, interface, time and staleness
parameter, and every table in which no entry is dated in the future, the table after the update
is the same whether `rrep_sent` is set or not, and the insertion of the second pass is not
reached.  A key may even occur twice in the table. -/
theorem rrepSent_redundant (rs : Resolver) (sp now : ℤ) (p : OdrPack) (nextHop : HwAddr)
    (ifIdx : ℤ) (t : Rtbl) (hp : p.type = .rreq) (hts : ∀ e ∈ t, e.ts ≤ now) :
    updateRtblEntry rs sp now (p.withRrepSent 1) nextHop ifIdx t
        = updateRtblEntry rs sp now (p.withRrepSent 0) nextHop ifIdx t ∧
      ¬SecondPassInserts rs sp now (p.withRrepSent 1) nextHop ifIdx t := by
  constructor
  · have hp₁ : (p.withRrepSent 1).type = .rreq := hp
    have hp₀ : (p.withRrepSent 0).type = .rreq := hp
    rw [updateRtblEntry_eq_firstPass hp₁ hts, updateRtblEntry_eq_firstPass hp₀ hts]
    rfl
  · rintro ⟨-, -, hnot⟩
    exact hnot entryExistsForSrc_firstPass

/-- With a negative `sp`, on the table with an entry of five hops and an RREQ of three. -/
theorem rrepSent_redundant_fiveHops :
    updateRtblEntry Lab.resolver (-1) 4 (threeLinks.withRrepSent 1) 9 2 fiveHops
        = updateRtblEntry Lab.resolver (-1) 4 (threeLinks.withRrepSent 0) 9 2 fiveHops ∧
      ¬SecondPassInserts Lab.resolver (-1) 4 (threeLinks.withRrepSent 1) 9 2 fiveHops :=
  rrepSent_redundant Lab.resolver (-1) 4 threeLinks 9 2 fiveHops rfl (by decide)

end Odr
