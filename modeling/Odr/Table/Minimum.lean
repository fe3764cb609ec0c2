/-
# Fresh updates compute a minimum

As long as the entry of a key is not stale, RREQs from the key's node and RREPs to it leave the
path with the fewest hops among those offered, the earliest one where several are equally short.
The hop count that results does not depend on the order of arrival.
-/
import Odr.Table.RouteOrigin

namespace Odr

open Transition.System (Along along_snoc along_nil)

/-- The fields of an entry that describe a path: its length, its next hop and when it was
learnt. -/
structure Path where
  hop : ℤ
  nextHop : HwAddr
  ifNo : ℤ
  ts : ℤ
deriving DecidableEq, Repr

/-! ## The entries under other keys -/

lemma filter_updateLoop (sp : ℤ) (o : Offer) (t : Rtbl) :
    (updateLoop sp o t).1.filter (fun e => e.key ≠ o.key) = t.filter fun e => e.key ≠ o.key := by
  induction t with
  | nil => rfl
  | cons e t ih =>
    rw [updateLoop]
    by_cases h : e.key = o.key
    · rw [if_pos h]
      split
      · simp [h]
      · simpa [h] using ih
    · rw [if_neg h]
      simpa [h] using ih

lemma filter_updateOrAdd {sp : ℤ} {o : Offer} {added : RtblEntry} (hadd : added.key = o.key)
    (t : Rtbl) :
    (updateOrAdd sp o added t).1.filter (fun e => e.key ≠ o.key)
      = t.filter fun e => e.key ≠ o.key := by
  rw [updateOrAdd]
  split
  · exact filter_updateLoop sp o t
  · simp [hadd]

lemma filter_updateRtblEntry {rs : Resolver} {now : ℤ} {p : OdrPack} {nextHop : HwAddr}
    {ifIdx : ℤ} {o : Offer} (ho : offer rs now p nextHop ifIdx = some o) (sp : ℤ) (t : Rtbl) :
    (updateRtblEntry rs sp now p nextHop ifIdx t).filter (fun e => e.key ≠ o.key)
      = t.filter fun e => e.key ≠ o.key := by
  rcases updateRtblEntry_cases sp (t := t) ho with ⟨-, h⟩ | ⟨-, -, added, hadd, h⟩ | ⟨-, h⟩
  · rw [h, filter_updateOrAdd rfl]
  · rw [h, filter_updateOrAdd hadd, filter_updateOrAdd rfl]
  · rw [h, filter_updateLoop]

/-! ## Sequences of updates -/

/-- The path that an entry describes. -/
def RtblEntry.path (e : RtblEntry) : Path := ⟨e.hop, e.nextHopHwaddr, e.ifNo, e.ts⟩

/-- A packet that the table is updated with, and when. -/
structure Arrival where
  now : ℤ
  pack : OdrPack
  nextHop : HwAddr
  ifIdx : ℤ

namespace Arrival

/-- The table after an update. -/
def run (rs : Resolver) (sp : ℤ) (t : Rtbl) (r : Arrival) : Rtbl :=
  updateRtblEntry rs sp r.now r.pack r.nextHop r.ifIdx t

/-- The path that the packet offers. -/
def path (r : Arrival) : Path := ⟨r.pack.hopCount, r.nextHop, r.ifIdx, r.now⟩

/-- The packet is an RREQ whose source has the key, or an RREP whose destination has it. -/
def Advertises (rs : Resolver) (key : ℤ) (r : Arrival) : Prop :=
  r.pack.type = .rreq ∧ getIndexFromIp rs r.pack.srcCanIpStr.str = key ∨
    r.pack.type = .rrep ∧ getIndexFromIp rs r.pack.destCanIpStr.str = key

/-- The table after a sequence of updates. -/
def runs (rs : Resolver) (sp : ℤ) (t : Rtbl) (l : List Arrival) : Rtbl := l.foldl (run rs sp) t

/-- Every update of the sequence finds the entry of the key, if there is one, not older than
`sp`. -/
def Fresh (rs : Resolver) (sp key : ℤ) (t : Rtbl) (l : List Arrival) : Prop :=
  Along (fun pre r => ∀ e, findKey key (runs rs sp t pre) = some e → r.now - e.ts ≤ sp) l

variable {rs : Resolver} {sp key : ℤ} {t : Rtbl} {r : Arrival} {l : List Arrival}

lemma runs_snoc (rs : Resolver) (sp : ℤ) (t : Rtbl) (l : List Arrival) (r : Arrival) :
    runs rs sp t (l ++ [r]) = run rs sp (runs rs sp t l) r := by
  rw [runs, List.foldl_append]
  rfl

lemma Advertises.offer (h : r.Advertises rs key) :
    ∃ o, Odr.offer rs r.now r.pack r.nextHop r.ifIdx = some o ∧ o.key = key ∧
      r.pack.type ≠ .data := by
  rcases h with ⟨hty, rfl⟩ | ⟨hty, rfl⟩
  · exact ⟨_, by rw [Odr.offer, hty], rfl, by simp [hty]⟩
  · exact ⟨_, by rw [Odr.offer, hty], rfl, by simp [hty]⟩

/-- The path under the key after an update that finds the entry fresh. -/
lemma path_run (hadv : r.Advertises rs key)
    (hfresh : ∀ e, findKey key t = some e → r.now - e.ts ≤ sp) :
    (findKey key (run rs sp t r)).map RtblEntry.path =
      ((findKey key t).map RtblEntry.path).elim (some r.path)
        fun c => if r.path.hop < c.hop then some r.path else some c := by
  obtain ⟨o, ho, rfl, hty⟩ := hadv.offer
  obtain ⟨hhop, -⟩ := offer_hops ho
  obtain ⟨hn, hi, hnow⟩ := offer_nextHop ho
  have hpath : r.path = ⟨o.hop, o.nextHop, o.ifIdx, o.now⟩ := by
    rw [hhop, hn, hi, hnow]
    rfl
  rcases he : findKey o.key t with _ | e
  · obtain ⟨ip, h⟩ := findKey_updateRtblEntry_new sp ho hty he
    rw [run, h, hpath]
    rfl
  · obtain ⟨ip, h⟩ := findKey_updateRtblEntry_some sp ho he
    rw [run, h, touch_fresh (by rw [hnow]; exact hfresh e he), hpath, RtblEntry.improve]
    by_cases hlt : o.hop < e.hop
    · rw [if_pos hlt]
      exact (if_pos hlt).symm
    · rw [if_neg hlt]
      exact (if_neg hlt).symm

lemma keyNodup_runs (ht : KeyNodup t) (l : List Arrival) : KeyNodup (runs rs sp t l) := by
  induction l using List.reverseRecOn with
  | nil => exact ht
  | append_singleton l r ih =>
    rw [runs_snoc]
    exact keyNodup_updateRtblEntry _ ih

lemma filter_runs (hadv : ∀ r ∈ l, r.Advertises rs key) :
    (runs rs sp t l).filter (fun e => e.key ≠ key) = t.filter fun e => e.key ≠ key := by
  induction l using List.reverseRecOn with
  | nil => rfl
  | append_singleton l r ih =>
    obtain ⟨o, ho, rfl, -⟩ := (hadv r (by simp)).offer
    rw [runs_snoc, run, filter_updateRtblEntry ho, ih fun r hr => hadv r (by simp [hr])]

/-- The paths that compete for an entry: the one it describes at first and those offered. -/
def candidates (key : ℤ) (t : Rtbl) (l : List Arrival) : List Path :=
  ((findKey key t).map RtblEntry.path).toList ++ l.map path

/-- The path under the key after a sequence of updates. -/
lemma path_runs (hadv : ∀ r ∈ l, r.Advertises rs key) (hfresh : Fresh rs sp key t l) :
    (findKey key (runs rs sp t l)).map RtblEntry.path
      = (candidates key t l).argmin Path.hop := by
  induction l using List.reverseRecOn with
  | nil =>
    rw [candidates, List.map_nil, List.append_nil]
    rcases h : findKey key t with _ | e
    · simp [runs, h]
    · simp [runs, h]
  | append_singleton l r ih =>
    obtain ⟨hpre, hr⟩ := along_snoc.mp hfresh
    have hcand : candidates key t (l ++ [r]) = candidates key t l ++ [r.path] := by
      simp [candidates]
    rw [runs_snoc, path_run (hadv r (by simp)) hr, ih (fun r hr => hadv r (by simp [hr])) hpre,
      hcand, List.argmin_concat]
    rcases (candidates key t l).argmin Path.hop with _ | c
    · rfl
    · rfl

lemma exists_mem_argmin_le {l l' : List Path} (h : (l.map Path.hop).Perm (l'.map Path.hop))
    {m : Path} (hm : m ∈ l.argmin Path.hop) : ∃ m' ∈ l'.argmin Path.hop, m'.hop ≤ m.hop := by
  have hmem : m.hop ∈ l'.map Path.hop := h.subset (List.mem_map_of_mem (List.argmin_mem hm))
  obtain ⟨a, ha, hle⟩ := List.mem_map.mp hmem
  rcases h' : l'.argmin Path.hop with _ | m'
  · rw [List.argmin_eq_none] at h'
    simp [h'] at ha
  · exact ⟨m', rfl, (List.le_of_mem_argmin ha h').trans_eq hle⟩

/-- The least length does not depend on the order. -/
lemma map_hop_argmin {l l' : List Path} (h : (l.map Path.hop).Perm (l'.map Path.hop)) :
    (l.argmin Path.hop).map Path.hop = (l'.argmin Path.hop).map Path.hop := by
  rcases hm : l.argmin Path.hop with _ | m
  · rw [List.argmin_eq_none] at hm
    have hnil : l' = [] := by simpa [hm] using h
    rw [hnil]
    rfl
  · obtain ⟨m', hm', hle⟩ := exists_mem_argmin_le h hm
    obtain ⟨m'', hm'', hle'⟩ := exists_mem_argmin_le h.symm hm'
    obtain rfl := Option.some_injective _ (hm.symm.trans hm'')
    rw [hm']
    exact congrArg some (le_antisymm hle' hle)

/-- **Fresh updates compute the minimum.** From a table with one entry per key, RREQs from and
RREPs to the node of a key, received in any order while the key's entry is not stale, leave
exactly one entry with the key as soon as there is a candidate: it describes the first shortest
of the path it described before and the paths offered.  The entries under other keys are
unchanged, and the final hop count is the same for every sequence that offers the same hop
counts in another order. -/
theorem fresh_minimum (rs : Resolver) (sp key : ℤ) (t : Rtbl) (l : List Arrival)
    (ht : KeyNodup t) (hadv : ∀ r ∈ l, r.Advertises rs key) (hfresh : Fresh rs sp key t l) :
    ((runs rs sp t l).filter fun e => e.key = key).map RtblEntry.path
        = ((candidates key t l).argmin Path.hop).toList ∧
      (runs rs sp t l).filter (fun e => e.key ≠ key) = (t.filter fun e => e.key ≠ key) ∧
      ∀ l', (∀ r ∈ l', r.Advertises rs key) → Fresh rs sp key t l' →
        (l'.map fun r => r.pack.hopCount).Perm (l.map fun r => r.pack.hopCount) →
        (findKey key (runs rs sp t l')).map RtblEntry.hop
          = (findKey key (runs rs sp t l)).map RtblEntry.hop := by
  have hpath := path_runs hadv hfresh
  refine ⟨?_, filter_runs hadv, fun l' hadv' hfresh' hperm => ?_⟩
  · rw [← hpath]
    rcases he : findKey key (runs rs sp t l) with _ | e
    · rw [List.filter_eq_nil_iff.mpr (by simpa using findKey_eq_none.mp he)]
      rfl
    · rw [filter_key_of_findKey (keyNodup_runs ht l) he]
      rfl
  · have hpath' := path_runs hadv' hfresh'
    have hhop : ∀ t : Rtbl, (findKey key t).map RtblEntry.hop
        = ((findKey key t).map RtblEntry.path).map Path.hop := fun t => by
      rw [Option.map_map]
      rfl
    rw [hhop, hhop, hpath, hpath']
    refine map_hop_argmin ?_
    simpa [candidates, Function.comp_def, path] using hperm.append_left _

/-- Two RREQs from the first machine, the second of which takes fewer links. -/
def twoPaths : List Arrival :=
  [⟨0, (lateRreq 0 3 7 1).pack, 7, 1⟩, ⟨4, (lateRreq 4 2 9 2).pack, 9, 2⟩]

theorem fresh_minimum_two :
    ((runs Lab.resolver 5 [] twoPaths).filter fun e => e.key = 1).map RtblEntry.path
        = ((candidates 1 [] twoPaths).argmin Path.hop).toList :=
  (fresh_minimum Lab.resolver 5 1 [] twoPaths (by simp [KeyNodup])
    (fun r hr => Or.inl (by revert r; decide))
    (along_snoc.mpr ⟨along_snoc.mpr ⟨along_nil _, by decide⟩, by decide⟩)).1

end Arrival

end Odr
