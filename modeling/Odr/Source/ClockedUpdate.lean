/-
# The update with a clock that runs

`update_rtbl_entry` calls `time(NULL)` again for every comparison and for every time stamp it
writes, and the clock may run between two calls.  `clockedUpdate` is the update with the
readings of the clock as a sequence, which it consumes in the order of the calls.

With a clock that stands still during the update it is `updateRtblEntry`
(`clockedUpdate_const`).
-/
import Odr.Source.RoutingTable

namespace Odr

/-- The offer as it is made at another time. -/
def Offer.at (o : Offer) (now : ℤ) : Offer := { o with now := now }

/-- The loop over the table, from the `i`-th reading of the clock on: one reading for each entry
with the key, and another one for an entry that is written.  It also returns the number of the
next reading. -/
def clockedLoop (sp : ℤ) (o : Offer) (clk : ℕ → ℤ) : ℕ → Rtbl → Rtbl × Bool × ℕ
  | i, [] => ([], false, i)
  | i, e :: t =>
      if e.key = o.key then
        if clk i - e.ts > sp then (e.replaceStale (o.at (clk (i + 1))) :: t, true, i + 2)
        else
          let r := clockedLoop sp o clk (if e.hop > o.hop then i + 2 else i + 1) t
          (e.improve (o.at (clk (i + 1))) :: r.1, r.2)
      else
        let r := clockedLoop sp o clk i t
        (e :: r.1, r.2)

/-- A block that inserts a missing entry, stamped with the next reading. -/
def clockedOrAdd (sp : ℤ) (o : Offer) (added : RtblEntry) (clk : ℕ → ℤ) (i : ℕ) (t : Rtbl) :
    Rtbl × Bool × ℕ :=
  if entryExistsForSrc o.key t = 1 then clockedLoop sp o clk i t
  else (t ++ [{ added with ts := clk i }], false, i + 1)

/-- `update_rtbl_entry` with the readings `clk` of the clock. -/
def clockedUpdate (rs : Resolver) (sp : ℤ) (clk : ℕ → ℤ) (p : OdrPack) (nextHop : HwAddr)
    (ifIdx : ℤ) (t : Rtbl) : Rtbl :=
  match p.type with
  | .rreq =>
      let o := srcOffer rs (clk 0) p nextHop ifIdx p.rreq.hop p.rreq.hop
      let r := clockedOrAdd sp o o.entry clk 0 t
      if r.2.1 then r.1
      else if p.rreq.rrepSent = 1 then
        (clockedOrAdd sp o { o.entry with destCanIpStr := p.destCanIpStr } clk r.2.2 r.1).1
      else r.1
  | .rrep =>
      let o := destOffer rs (clk 0) p nextHop ifIdx p.rreq.hop p.rrep.hop
      (clockedOrAdd sp o o.entry clk 0 t).1
  | .data =>
      let o₁ := srcOffer rs (clk 0) p nextHop ifIdx p.rreq.hop p.rreq.hop
      let r := if entryExistsForSrc o₁.key t = 1 ∧ p.srcDest = 1 then clockedLoop sp o₁ clk 0 t
        else (t, false, 0)
      if r.2.1 then r.1
      else
        let o₂ := destOffer rs (clk 0) p nextHop ifIdx p.rreq.hop p.rreq.hop
        if entryExistsForSrc o₂.key r.1 = 1 ∧ p.srcDest = -1 then
          (clockedLoop sp o₂ clk r.2.2 r.1).1
        else r.1
  | .other _ => t

/-! ## A clock that stands still -/

lemma clockedLoop_const (sp : ℤ) {o : Offer} {now : ℤ} (ho : o.now = now) (i : ℕ) (t : Rtbl) :
    (clockedLoop sp o (fun _ => now) i t).1 = (updateLoop sp o t).1 ∧
      (clockedLoop sp o (fun _ => now) i t).2.1 = (updateLoop sp o t).2 := by
  subst ho
  induction t generalizing i with
  | nil => exact ⟨rfl, rfl⟩
  | cons e t ih =>
    rw [clockedLoop, updateLoop]
    by_cases hk : e.key = o.key
    · rw [if_pos hk, if_pos hk]
      by_cases hst : o.now - e.ts > sp
      · rw [if_pos hst, if_pos hst]
        exact ⟨rfl, rfl⟩
      · rw [if_neg hst, if_neg hst]
        obtain ⟨h₁, h₂⟩ := ih (if e.hop > o.hop then i + 2 else i + 1)
        exact ⟨congrArg _ h₁, h₂⟩
    · rw [if_neg hk, if_neg hk]
      exact ⟨congrArg _ (ih i).1, (ih i).2⟩

lemma clockedOrAdd_const (sp : ℤ) {o : Offer} {now : ℤ} (ho : o.now = now) (added : RtblEntry)
    (ha : added.ts = now) (i : ℕ) (t : Rtbl) :
    (clockedOrAdd sp o added (fun _ => now) i t).1 = (updateOrAdd sp o added t).1 ∧
      (clockedOrAdd sp o added (fun _ => now) i t).2.1 = (updateOrAdd sp o added t).2 := by
  rw [clockedOrAdd, updateOrAdd]
  split
  · exact clockedLoop_const sp ho i t
  · rw [← ha]
    exact ⟨rfl, rfl⟩

/-- **With a clock that stands still** the update is the one with a single time. -/
theorem clockedUpdate_const (rs : Resolver) (sp now : ℤ) (p : OdrPack) (nextHop : HwAddr)
    (ifIdx : ℤ) (t : Rtbl) :
    clockedUpdate rs sp (fun _ => now) p nextHop ifIdx t
      = updateRtblEntry rs sp now p nextHop ifIdx t := by
  have hsrc : ∀ x y, (srcOffer rs now p nextHop ifIdx x y).now = now := fun _ _ => rfl
  have hdest : ∀ x y, (destOffer rs now p nextHop ifIdx x y).now = now := fun _ _ => rfl
  rw [clockedUpdate, updateRtblEntry]
  rcases hty : p.type with _ | _ | _ | n
  · have ho := hsrc p.rreq.hop p.rreq.hop
    simp only
    generalize srcOffer rs now p nextHop ifIdx p.rreq.hop p.rreq.hop = o at ho ⊢
    have h₁ := clockedOrAdd_const sp ho o.entry ho 0 t
    generalize clockedOrAdd sp o o.entry (fun _ => now) 0 t = r at h₁ ⊢
    obtain ⟨t₁, b, i⟩ := r
    obtain ⟨rfl, rfl⟩ := h₁
    -- the entry that the second pass would insert has the same time stamp
    have h₂ := clockedOrAdd_const sp ho { o.entry with destCanIpStr := p.destCanIpStr } ho i
      (updateOrAdd sp o o.entry t).1
    simp only
    rw [h₂.1]
  · exact (clockedOrAdd_const sp (hdest p.rreq.hop p.rrep.hop) _ rfl 0 t).1
  · obtain ⟨h₁, h₂⟩ := clockedLoop_const sp (hsrc p.rreq.hop p.rreq.hop) 0 t
    simp only
    split
    · rw [h₁, h₂, (clockedLoop_const sp (hdest _ _) _ _).1]
    · rw [(clockedLoop_const sp (hdest _ _) _ _).1]
  · rfl

end Odr
