/-
# The routing table

The routing table of `rtbl.h` and its three operations `entry_exists_for_src`,
`update_rtbl_entry` and `get_rtbl_entry`.

The table is a kernel list: `list_add` puts a new entry at the head and every loop runs
`list_for_each_entry_reverse`, from the oldest entry to the newest.  Here it is the list of
its entries in that loop order, so that a new entry is appended at the end.

`update_rtbl_entry` is written in the source as five copies of one block: a loop that
replaces a stale entry and returns at once, or improves an entry that takes more hops, and
(in the RREQ and RREP copies) the insertion of a missing entry.  The copies differ in the
address they file the entry under and in the header field they read the hop count from;
these differences are the fields of `Offer`.
-/
import Odr.Source.Packet

namespace Odr

/-- An entry of the routing table, `struct routing_table`. -/
structure RtblEntry where
  key : ℤ
  destCanIpStr : CanIp
  nextHopHwaddr : HwAddr
  ifNo : ℤ
  hop : ℤ
  ts : ℤ
deriving DecidableEq, Repr

/-- The routing table, in the order in which its loops visit the entries. -/
abbrev Rtbl := List RtblEntry

/-- The first entry with a given key, in loop order. -/
def findKey (key : ℤ) (t : Rtbl) : Option RtblEntry := t.find? fun e => e.key = key

/-- `entry_exists_for_src`. -/
def entryExistsForSrc (key : ℤ) (t : Rtbl) : ℤ :=
  if t.any fun e => e.key = key then 1 else 0

/-- `get_rtbl_entry`: the entry whose next hop, interface and hop count the source copies
out, or `none` where it returns `-1`. -/
def getRtblEntry (rs : Resolver) (ip : CanIp) (t : Rtbl) : Option RtblEntry :=
  let key := getIndexFromIp rs ip.str
  if entryExistsForSrc key t = 1 then findKey key t else none

/-- What one block of `update_rtbl_entry` reads: the key and the address it files the entry
under, the neighbour and the interface the packet came from, the hop count compared when
the entry is stale, the one compared when it is not, and the time. -/
structure Offer where
  key : ℤ
  ip : CanIp
  nextHop : HwAddr
  ifIdx : ℤ
  staleHop : ℤ
  hop : ℤ
  now : ℤ
deriving DecidableEq, Repr

/-- The entry of a key that is missing from the table. -/
def Offer.entry (o : Offer) : RtblEntry := ⟨o.key, o.ip, o.nextHop, o.ifIdx, o.hop, o.now⟩

/-- A stale entry is overwritten, but its hop count is only ever lowered. -/
def RtblEntry.replaceStale (o : Offer) (e : RtblEntry) : RtblEntry where
  key := o.key
  destCanIpStr := o.ip
  nextHopHwaddr := o.nextHop
  ifNo := o.ifIdx
  hop := if e.hop > o.staleHop then o.staleHop else e.hop
  ts := o.now

/-- An entry that is not stale changes when the new path takes fewer hops. -/
def RtblEntry.improve (o : Offer) (e : RtblEntry) : RtblEntry :=
  if e.hop > o.hop then
    { e with nextHopHwaddr := o.nextHop, ifNo := o.ifIdx, hop := o.hop, ts := o.now }
  else e

/-- The loop over the table.  The flag says that a stale entry was replaced, on which
`update_rtbl_entry` returns. -/
def updateLoop (sp : ℤ) (o : Offer) : Rtbl → Rtbl × Bool
  | [] => ([], false)
  | e :: t =>
      if e.key = o.key then
        if o.now - e.ts > sp then (e.replaceStale o :: t, true)
        else (e.improve o :: (updateLoop sp o t).1, (updateLoop sp o t).2)
      else (e :: (updateLoop sp o t).1, (updateLoop sp o t).2)

/-- A block of `update_rtbl_entry` that inserts a missing entry. -/
def updateOrAdd (sp : ℤ) (o : Offer) (added : RtblEntry) (t : Rtbl) : Rtbl × Bool :=
  if entryExistsForSrc o.key t = 1 then updateLoop sp o t else (t ++ [added], false)

section Update

variable (rs : Resolver) (sp now : ℤ) (p : OdrPack) (nextHop : HwAddr) (ifIdx : ℤ)

/-- The offer of a packet for the node it comes from, filed under its source address. -/
def srcOffer (staleHop hop : ℤ) : Offer :=
  ⟨getIndexFromIp rs p.srcCanIpStr.str, p.srcCanIpStr, nextHop, ifIdx, staleHop, hop, now⟩

/-- The offer of a packet filed under its destination address. -/
def destOffer (staleHop hop : ℤ) : Offer :=
  ⟨getIndexFromIp rs p.destCanIpStr.str, p.destCanIpStr, nextHop, ifIdx, staleHop, hop, now⟩

/-- `update_rtbl_entry`. -/
def updateRtblEntry (t : Rtbl) : Rtbl :=
  match p.type with
  | .rreq =>
      let o := srcOffer rs now p nextHop ifIdx p.rreq.hop p.rreq.hop
      let r := updateOrAdd sp o o.entry t
      if r.2 then r.1
      else if p.rreq.rrepSent = 1 then
        -- the second pass would insert the destination's address under the source's key
        (updateOrAdd sp o { o.entry with destCanIpStr := p.destCanIpStr } r.1).1
      else r.1
  | .rrep =>
      -- a stale entry is compared with the RREQ header that the RREP still carries
      let o := destOffer rs now p nextHop ifIdx p.rreq.hop p.rrep.hop
      (updateOrAdd sp o o.entry t).1
  | .data =>
      let o₁ := srcOffer rs now p nextHop ifIdx p.rreq.hop p.rreq.hop
      let r := if entryExistsForSrc o₁.key t = 1 ∧ p.srcDest = 1 then updateLoop sp o₁ t
        else (t, false)
      if r.2 then r.1
      else
        let o₂ := destOffer rs now p nextHop ifIdx p.rreq.hop p.rreq.hop
        if entryExistsForSrc o₂.key r.1 = 1 ∧ p.srcDest = -1 then (updateLoop sp o₂ r.1).1
        else r.1
  | .other _ => t

/-- The offer by which a packet changes the table, if it does. -/
def offer : Option Offer :=
  match p.type with
  | .rreq => some (srcOffer rs now p nextHop ifIdx p.rreq.hop p.rreq.hop)
  | .rrep => some (destOffer rs now p nextHop ifIdx p.rreq.hop p.rrep.hop)
  | .data =>
      if p.srcDest = 1 then some (srcOffer rs now p nextHop ifIdx p.rreq.hop p.rreq.hop)
      else if p.srcDest = -1 then some (destOffer rs now p nextHop ifIdx p.rreq.hop p.rreq.hop)
      else none
  | .other _ => none

end Update

/-! ## Looking an entry up -/

lemma findKey_nil (key : ℤ) : findKey key [] = none := rfl

lemma findKey_cons (key : ℤ) (e : RtblEntry) (t : Rtbl) :
    findKey key (e :: t) = if e.key = key then some e else findKey key t := by
  by_cases h : e.key = key <;> simp [findKey, h]

lemma findKey_append (key : ℤ) (t : Rtbl) (e : RtblEntry) :
    findKey key (t ++ [e]) = (findKey key t).or (if e.key = key then some e else none) := by
  by_cases h : e.key = key <;> simp [findKey, List.find?_append, h]

lemma findKey_eq_none {key : ℤ} {t : Rtbl} : findKey key t = none ↔ ∀ e ∈ t, e.key ≠ key := by
  simp [findKey]

lemma key_of_findKey {key : ℤ} {t : Rtbl} {e : RtblEntry} (h : findKey key t = some e) :
    e.key = key := by
  simpa using List.find?_some h

lemma mem_of_findKey {key : ℤ} {t : Rtbl} {e : RtblEntry} (h : findKey key t = some e) :
    e ∈ t := List.mem_of_find?_eq_some h

lemma entryExistsForSrc_eq_one {key : ℤ} {t : Rtbl} :
    entryExistsForSrc key t = 1 ↔ (findKey key t).isSome := by
  simp [entryExistsForSrc, findKey, List.find?_isSome]

lemma entryExistsForSrc_eq_zero {key : ℤ} {t : Rtbl} :
    entryExistsForSrc key t = 0 ↔ findKey key t = none := by
  simp [entryExistsForSrc, findKey, List.find?_eq_none]

lemma entryExistsForSrc_eq_one_iff {key : ℤ} {t : Rtbl} :
    entryExistsForSrc key t = 1 ↔ ∃ e, findKey key t = some e := by
  rw [entryExistsForSrc_eq_one, Option.isSome_iff_exists]

lemma entryExistsForSrc_ne_one {key : ℤ} {t : Rtbl} :
    entryExistsForSrc key t ≠ 1 ↔ findKey key t = none := by
  rw [Ne, entryExistsForSrc_eq_one, Option.not_isSome_iff_eq_none]

lemma entryExistsForSrc_ne_zero {key : ℤ} {t : Rtbl} :
    entryExistsForSrc key t ≠ 0 ↔ ∃ e, findKey key t = some e := by
  rw [Ne, entryExistsForSrc_eq_zero, ← Ne, Option.ne_none_iff_exists']

/-- `get_rtbl_entry` finds an entry exactly when there is one: its loop never runs past the
end of the table. -/
lemma getRtblEntry_eq (rs : Resolver) (ip : CanIp) (t : Rtbl) :
    getRtblEntry rs ip t = findKey (getIndexFromIp rs ip.str) t := by
  rw [getRtblEntry]
  rcases h : findKey (getIndexFromIp rs ip.str) t with _ | e
  · simp [entryExistsForSrc_eq_one, h]
  · simp [entryExistsForSrc_eq_one, h]

/-- A table with at most one entry for each key. -/
def KeyNodup (t : Rtbl) : Prop := (t.map RtblEntry.key).Nodup

lemma findKey_of_mem {t : Rtbl} (ht : KeyNodup t) {e : RtblEntry} (he : e ∈ t) :
    findKey e.key t = some e := by
  induction t with
  | nil => exact absurd he (by simp)
  | cons a t ih =>
    rw [KeyNodup, List.map_cons, List.nodup_cons] at ht
    rw [findKey_cons]
    rcases List.mem_cons.mp he with rfl | he'
    · simp
    · have hne : a.key ≠ e.key := fun h => ht.1 (h ▸ List.mem_map_of_mem he')
      rw [if_neg hne]
      exact ih ht.2 he'

/-- The only entry with a key is the one that is found. -/
lemma filter_key_of_findKey {t : Rtbl} (ht : KeyNodup t) {key : ℤ} {e : RtblEntry}
    (he : findKey key t = some e) : (t.filter fun e => e.key = key) = [e] := by
  induction t with
  | nil => simp [findKey_nil] at he
  | cons a t ih =>
    rw [KeyNodup, List.map_cons, List.nodup_cons] at ht
    rw [findKey_cons] at he
    by_cases hk : a.key = key
    · obtain rfl : a = e := by simpa [hk] using he
      have hnot : ∀ b ∈ t, b.key ≠ key :=
        fun b hb hb' => ht.1 (by rw [hk, ← hb']; exact List.mem_map_of_mem hb)
      have hnil : (t.filter fun e => e.key = key) = [] := by
        rw [List.filter_eq_nil_iff]
        simpa using hnot
      simp [hk, hnil]
    · rw [if_neg hk] at he
      simp [hk, ih ht.2 he]

lemma keyNodup_append {t : Rtbl} (ht : KeyNodup t) {added : RtblEntry}
    (hnew : findKey added.key t = none) : KeyNodup (t ++ [added]) := by
  rw [KeyNodup, List.map_append, List.nodup_append]
  refine ⟨ht, by simp, fun a ha b hb => ?_⟩
  obtain ⟨e, he, rfl⟩ := List.mem_map.mp ha
  obtain rfl : b = added.key := by simpa using hb
  exact findKey_eq_none.mp hnew e he

/-! ## One block of `update_rtbl_entry` -/

/-- What the loop does to an entry with the offer's key. -/
def touch (sp : ℤ) (o : Offer) (e : RtblEntry) : RtblEntry :=
  if o.now - e.ts > sp then e.replaceStale o else e.improve o

@[simp] lemma replaceStale_key (o : Offer) (e : RtblEntry) : (e.replaceStale o).key = o.key :=
  rfl

@[simp] lemma improve_key (o : Offer) (e : RtblEntry) : (e.improve o).key = e.key := by
  rw [RtblEntry.improve]
  split <;> rfl

lemma touch_key {sp : ℤ} {o : Offer} {e : RtblEntry} (h : e.key = o.key) :
    (touch sp o e).key = o.key := by
  rw [touch]
  split
  · rfl
  · rw [improve_key, h]

lemma touch_stale {sp : ℤ} {o : Offer} {e : RtblEntry} (h : o.now - e.ts > sp) :
    touch sp o e = e.replaceStale o := if_pos h

lemma touch_fresh {sp : ℤ} {o : Offer} {e : RtblEntry} (h : o.now - e.ts ≤ sp) :
    touch sp o e = e.improve o := if_neg (by omega)

lemma improve_of_lt {o : Offer} {e : RtblEntry} (h : o.hop < e.hop) :
    e.improve o =
      { e with nextHopHwaddr := o.nextHop, ifNo := o.ifIdx, hop := o.hop, ts := o.now } :=
  if_pos h

lemma improve_of_le {o : Offer} {e : RtblEntry} (h : e.hop ≤ o.hop) : e.improve o = e :=
  if_neg (not_lt.mpr h)

lemma replaceStale_hop (o : Offer) (e : RtblEntry) :
    (e.replaceStale o).hop = min e.hop o.staleHop := by
  simp only [RtblEntry.replaceStale]
  split <;> omega

lemma improve_hop (o : Offer) (e : RtblEntry) : (e.improve o).hop = min e.hop o.hop := by
  rw [RtblEntry.improve]
  split
  · simp only; omega
  · omega

/-- No block raises a hop count. -/
lemma touch_hop_le (sp : ℤ) (o : Offer) (e : RtblEntry) : (touch sp o e).hop ≤ e.hop := by
  rw [touch]
  split
  · rw [replaceStale_hop]; omega
  · rw [improve_hop]; omega

lemma map_key_updateLoop (sp : ℤ) (o : Offer) (t : Rtbl) :
    (updateLoop sp o t).1.map RtblEntry.key = t.map RtblEntry.key := by
  induction t with
  | nil => rfl
  | cons e t ih =>
    rw [updateLoop]
    split
    · next h =>
      split
      · simp [h]
      · simp [ih]
    · simp [ih]

lemma findKey_updateLoop_ne {sp : ℤ} {o : Offer} {key : ℤ} (hne : key ≠ o.key) (t : Rtbl) :
    findKey key (updateLoop sp o t).1 = findKey key t := by
  induction t with
  | nil => rfl
  | cons e t ih =>
    rw [updateLoop]
    split
    · next h =>
      have he : e.key ≠ key := fun h' => hne (h' ▸ h)
      split
      · rw [findKey_cons, findKey_cons, if_neg he, replaceStale_key, if_neg (h ▸ he)]
      · rw [findKey_cons, findKey_cons, improve_key, if_neg he, if_neg he, ih]
    · rw [findKey_cons, findKey_cons, ih]

lemma findKey_updateLoop_self (sp : ℤ) (o : Offer) (t : Rtbl) :
    findKey o.key (updateLoop sp o t).1 = (findKey o.key t).map (touch sp o) := by
  induction t with
  | nil => rfl
  | cons e t ih =>
    rw [updateLoop]
    split
    · next h =>
      split
      · next hst => simp [findKey_cons, h, touch_stale hst]
      · next hst => simp [findKey_cons, h, touch_fresh (not_lt.mp hst)]
    · next h => simp [findKey_cons, h, ih]

lemma updateLoop_of_missing {sp : ℤ} {o : Offer} {t : Rtbl}
    (h : entryExistsForSrc o.key t ≠ 1) : updateLoop sp o t = (t, false) := by
  rw [entryExistsForSrc_ne_one] at h
  induction t with
  | nil => rfl
  | cons e t ih =>
    rw [findKey_cons] at h
    by_cases he : e.key = o.key
    · simp [he] at h
    · rw [if_neg he] at h
      rw [updateLoop, if_neg he, ih h]

lemma keyNodup_updateOrAdd {sp : ℤ} {o : Offer} {added : RtblEntry} {t : Rtbl}
    (hadd : added.key = o.key) (ht : KeyNodup t) : KeyNodup (updateOrAdd sp o added t).1 := by
  rw [updateOrAdd]
  split
  · rw [KeyNodup, map_key_updateLoop]; exact ht
  · next h =>
    rw [← hadd] at h
    exact keyNodup_append ht (entryExistsForSrc_ne_one.mp h)

lemma findKey_updateOrAdd_ne {sp : ℤ} {o : Offer} {added : RtblEntry} {key : ℤ}
    (hadd : added.key = o.key) (hne : key ≠ o.key) (t : Rtbl) :
    findKey key (updateOrAdd sp o added t).1 = findKey key t := by
  rw [updateOrAdd]
  split
  · exact findKey_updateLoop_ne hne t
  · rw [findKey_append, if_neg (hadd ▸ hne.symm)]
    simp

lemma findKey_updateOrAdd_self {sp : ℤ} {o : Offer} {added : RtblEntry}
    (hadd : added.key = o.key) (t : Rtbl) :
    findKey o.key (updateOrAdd sp o added t).1
      = some (((findKey o.key t).map (touch sp o)).getD added) := by
  rw [updateOrAdd]
  rcases h : findKey o.key t with _ | e
  · rw [if_neg (by rw [entryExistsForSrc_eq_one, h]; simp), findKey_append, h]
    simp [hadd]
  · rw [if_pos (by rw [entryExistsForSrc_eq_one, h]; rfl), findKey_updateLoop_self, h]
    rfl

/-! ## `update_rtbl_entry` as one block -/

/-- An entry with another text in its address field, which no operation reads. -/
def RtblEntry.withIp (e : RtblEntry) (ip : CanIp) : RtblEntry := { e with destCanIpStr := ip }

@[simp] lemma withIp_self (e : RtblEntry) : e.withIp e.destCanIpStr = e := rfl

/-- Making the same offer again changes at most the address text of the entry. -/
lemma touch_of_accepted {sp : ℤ} {o : Offer} {e : RtblEntry} (hk : e.key = o.key)
    (hh : e.hop ≤ o.staleHop ∧ e.hop ≤ o.hop)
    (hroute : o.now - e.ts > sp → e.nextHopHwaddr = o.nextHop ∧ e.ifNo = o.ifIdx ∧ e.ts = o.now) :
    ∃ ip, touch sp o e = e.withIp ip := by
  by_cases hst : o.now - e.ts > sp
  · obtain ⟨hn, hi, ht⟩ := hroute hst
    refine ⟨o.ip, ?_⟩
    rw [touch_stale hst, RtblEntry.replaceStale, if_neg (by omega), RtblEntry.withIp, ← hk, ← hn,
      ← hi, ← ht]
  · refine ⟨e.destCanIpStr, ?_⟩
    rw [touch_fresh (by omega), RtblEntry.improve, if_neg (by omega), withIp_self]

lemma touch_touch (sp : ℤ) {o : Offer} {e : RtblEntry} (hk : e.key = o.key)
    (hh : o.staleHop = o.hop) : ∃ ip, touch sp o (touch sp o e) = (touch sp o e).withIp ip := by
  refine touch_of_accepted (touch_key hk) ?_ ?_
  · rw [touch]
    split
    · rw [replaceStale_hop]; omega
    · rw [improve_hop]; omega
  · by_cases hst : o.now - e.ts > sp
    · rw [touch_stale hst]
      exact fun _ => ⟨rfl, rfl, rfl⟩
    · rw [touch_fresh (by omega), RtblEntry.improve]
      split
      · exact fun _ => ⟨rfl, rfl, rfl⟩
      · exact fun h => absurd h hst

lemma touch_entry (sp : ℤ) {o : Offer} (hh : o.staleHop = o.hop) :
    ∃ ip, touch sp o o.entry = o.entry.withIp ip :=
  touch_of_accepted rfl ⟨by simp [Offer.entry, hh], by simp [Offer.entry]⟩
    fun _ => ⟨rfl, rfl, rfl⟩

section Spec

variable {rs : Resolver} {now : ℤ} {p : OdrPack} {nextHop : HwAddr} {ifIdx : ℤ} {o : Offer}
  (sp : ℤ) {t : Rtbl}

/-- A packet that makes no offer leaves the table as it is. -/
lemma updateRtblEntry_of_offer_none (ho : offer rs now p nextHop ifIdx = none) :
    updateRtblEntry rs sp now p nextHop ifIdx t = t := by
  rw [offer] at ho
  rw [updateRtblEntry]
  rcases hty : p.type with _ | _ | _ | n
  · simp [hty] at ho
  · simp [hty] at ho
  · simp only [hty] at ho
    split at ho
    · simp at ho
    · next h₁ =>
      split at ho
      · simp at ho
      · next h₂ => simp [h₁, h₂]
  · rfl

/-- What `update_rtbl_entry` does with an offer: the RREQ and RREP blocks insert a missing
entry, the RREQ block may be run a second time, and the DATA blocks never insert. -/
lemma updateRtblEntry_cases (ho : offer rs now p nextHop ifIdx = some o) :
    (p.type ≠ .data ∧ updateRtblEntry rs sp now p nextHop ifIdx t
        = (updateOrAdd sp o o.entry t).1) ∨
      (p.type ≠ .data ∧ o.staleHop = o.hop ∧ ∃ added : RtblEntry, added.key = o.key ∧
        updateRtblEntry rs sp now p nextHop ifIdx t
          = (updateOrAdd sp o added (updateOrAdd sp o o.entry t).1).1) ∨
      (p.type = .data ∧ updateRtblEntry rs sp now p nextHop ifIdx t = (updateLoop sp o t).1) := by
  rw [offer] at ho
  rw [updateRtblEntry]
  rcases hty : p.type with _ | _ | _ | n
  · simp only [hty, Option.some.injEq] at ho
    subst ho
    simp only [ne_eq, reduceCtorEq, not_false_eq_true, true_and, false_and, or_false]
    split
    · exact Or.inl rfl
    · split
      · exact Or.inr ⟨rfl, _, rfl, rfl⟩
      · exact Or.inl rfl
  · simp only [hty, Option.some.injEq] at ho
    subst ho
    exact Or.inl ⟨by simp, rfl⟩
  · refine Or.inr (Or.inr ⟨rfl, ?_⟩)
    simp only [hty] at ho
    -- the existence tests only skip loops that would find nothing
    split at ho
    · next h₁ =>
      simp only [Option.some.injEq] at ho
      subst ho
      by_cases hex : entryExistsForSrc
          (srcOffer rs now p nextHop ifIdx p.rreq.hop p.rreq.hop).key t = 1
      · simp [h₁, hex]
      · simp [h₁, hex, updateLoop_of_missing hex]
    · next h₁ =>
      split at ho
      · next h₂ =>
        simp only [Option.some.injEq] at ho
        subst ho
        by_cases hex : entryExistsForSrc
            (destOffer rs now p nextHop ifIdx p.rreq.hop p.rreq.hop).key t = 1
        · simp [h₂, hex]
        · simp [h₂, hex, updateLoop_of_missing hex]
      · simp at ho
  · simp [hty] at ho

lemma keyNodup_updateRtblEntry (ht : KeyNodup t) :
    KeyNodup (updateRtblEntry rs sp now p nextHop ifIdx t) := by
  rcases ho : offer rs now p nextHop ifIdx with _ | o
  · rw [updateRtblEntry_of_offer_none sp ho]; exact ht
  · rcases updateRtblEntry_cases sp (t := t) ho with
      ⟨-, h⟩ | ⟨-, -, added, hadd, h⟩ | ⟨-, h⟩
    · rw [h]; exact keyNodup_updateOrAdd rfl ht
    · rw [h]; exact keyNodup_updateOrAdd hadd (keyNodup_updateOrAdd rfl ht)
    · rw [h, KeyNodup, map_key_updateLoop]; exact ht

/-- Only the entry under the offer's key changes. -/
lemma findKey_updateRtblEntry_ne (ho : offer rs now p nextHop ifIdx = some o) {key : ℤ}
    (hne : key ≠ o.key) :
    findKey key (updateRtblEntry rs sp now p nextHop ifIdx t) = findKey key t := by
  rcases updateRtblEntry_cases sp (t := t) ho with
    ⟨-, h⟩ | ⟨-, -, added, hadd, h⟩ | ⟨-, h⟩
  · rw [h, findKey_updateOrAdd_ne rfl hne]
  · rw [h, findKey_updateOrAdd_ne hadd hne, findKey_updateOrAdd_ne rfl hne]
  · rw [h, findKey_updateLoop_ne hne]

/-- An entry under the offer's key is treated by one block, up to its address text. -/
lemma findKey_updateRtblEntry_some (ho : offer rs now p nextHop ifIdx = some o) {e : RtblEntry}
    (he : findKey o.key t = some e) :
    ∃ ip, findKey o.key (updateRtblEntry rs sp now p nextHop ifIdx t)
      = some ((touch sp o e).withIp ip) := by
  have hk : e.key = o.key := key_of_findKey he
  rcases updateRtblEntry_cases sp (t := t) ho with
    ⟨-, h⟩ | ⟨-, hh, added, hadd, h⟩ | ⟨-, h⟩
  · exact ⟨_, by rw [h, findKey_updateOrAdd_self rfl, he]; rfl⟩
  · obtain ⟨ip, hip⟩ := touch_touch sp (e := e) hk hh
    refine ⟨ip, ?_⟩
    rw [h, findKey_updateOrAdd_self hadd, findKey_updateOrAdd_self rfl, he]
    simp [hip]
  · exact ⟨_, by rw [h, findKey_updateLoop_self, he]; rfl⟩

/-- A missing entry is inserted by an RREQ and by an RREP. -/
lemma findKey_updateRtblEntry_new (ho : offer rs now p nextHop ifIdx = some o)
    (hty : p.type ≠ .data) (he : findKey o.key t = none) :
    ∃ ip, findKey o.key (updateRtblEntry rs sp now p nextHop ifIdx t)
      = some (o.entry.withIp ip) := by
  rcases updateRtblEntry_cases sp (t := t) ho with
    ⟨-, h⟩ | ⟨-, hh, added, hadd, h⟩ | ⟨hd, -⟩
  · exact ⟨_, by rw [h, findKey_updateOrAdd_self rfl, he]; rfl⟩
  · obtain ⟨ip, hip⟩ := touch_entry sp hh
    refine ⟨ip, ?_⟩
    rw [h, findKey_updateOrAdd_self hadd, findKey_updateOrAdd_self rfl, he]
    simp [hip]
  · exact absurd hd hty

/-- A missing entry stays missing when DATA passes. -/
lemma findKey_updateRtblEntry_data (ho : offer rs now p nextHop ifIdx = some o)
    (hty : p.type = .data) (he : findKey o.key t = none) :
    findKey o.key (updateRtblEntry rs sp now p nextHop ifIdx t) = none := by
  rcases updateRtblEntry_cases sp (t := t) ho with
    ⟨hd, -⟩ | ⟨hd, -⟩ | ⟨-, h⟩
  · exact absurd hty hd
  · exact absurd hty hd
  · rw [h, findKey_updateLoop_self, he]
    rfl

/-! ## Where an entry's route comes from -/

/-- The hop counts that an update records together with a new next hop: for a missing entry,
for an entry that is not stale and takes more hops, and for a stale entry. -/
inductive Adoption (sp : ℤ) (o : Offer) : Option RtblEntry → ℤ → Prop
  | new : Adoption sp o none o.hop
  | better (e : RtblEntry) (hfresh : o.now - e.ts ≤ sp) (hlt : o.hop < e.hop) :
      Adoption sp o (some e) o.hop
  | stale (e : RtblEntry) (hstale : o.now - e.ts > sp) :
      Adoption sp o (some e) (min e.hop o.staleHop)

lemma touch_cases (o : Offer) (e : RtblEntry) :
    touch sp o e = e ∨ ((touch sp o e).nextHopHwaddr = o.nextHop ∧ (touch sp o e).ifNo = o.ifIdx ∧
      (touch sp o e).ts = o.now ∧ Adoption sp o (some e) (touch sp o e).hop) := by
  by_cases hst : o.now - e.ts > sp
  · rw [touch_stale hst]
    refine Or.inr ⟨rfl, rfl, rfl, ?_⟩
    rw [replaceStale_hop]
    exact .stale e hst
  · rw [touch_fresh (by omega), RtblEntry.improve]
    split
    · next hlt => exact Or.inr ⟨rfl, rfl, rfl, .better e (by omega) hlt⟩
    · exact Or.inl rfl

lemma offer_nextHop (ho : offer rs now p nextHop ifIdx = some o) :
    o.nextHop = nextHop ∧ o.ifIdx = ifIdx ∧ o.now = now := by
  rw [offer] at ho
  split at ho
  · simp only [Option.some.injEq] at ho; subst ho; exact ⟨rfl, rfl, rfl⟩
  · simp only [Option.some.injEq] at ho; subst ho; exact ⟨rfl, rfl, rfl⟩
  · split at ho
    · simp only [Option.some.injEq] at ho; subst ho; exact ⟨rfl, rfl, rfl⟩
    · split at ho
      · simp only [Option.some.injEq] at ho; subst ho; exact ⟨rfl, rfl, rfl⟩
      · simp at ho
  · simp at ho

/-- An entry after an update has the route it had before, or the packet's sender and
interface with a hop count that the update may record. -/
theorem findKey_updateRtblEntry_cases {key : ℤ} {e' : RtblEntry}
    (h : findKey key (updateRtblEntry rs sp now p nextHop ifIdx t) = some e') :
    (∃ e ip, findKey key t = some e ∧ e' = e.withIp ip) ∨
      ∃ o, offer rs now p nextHop ifIdx = some o ∧ o.key = key ∧ e'.nextHopHwaddr = nextHop ∧
        e'.ifNo = ifIdx ∧ e'.ts = now ∧ (findKey key t = none → p.type ≠ .data) ∧
        Adoption sp o (findKey key t) e'.hop := by
  rcases ho : offer rs now p nextHop ifIdx with _ | o
  · rw [updateRtblEntry_of_offer_none sp ho] at h
    exact Or.inl ⟨e', e'.destCanIpStr, h, rfl⟩
  obtain ⟨hn, hi, ht⟩ := offer_nextHop ho
  by_cases hk : key = o.key
  · subst hk
    rcases he : findKey o.key t with _ | e
    · by_cases hty : p.type = .data
      · rw [findKey_updateRtblEntry_data sp ho hty he] at h
        simp at h
      · obtain ⟨ip, h'⟩ := findKey_updateRtblEntry_new sp ho hty he
        obtain rfl := Option.some_injective _ (h.symm.trans h')
        exact Or.inr ⟨o, rfl, rfl, hn, hi, ht, fun _ => hty, .new⟩
    · obtain ⟨ip, h'⟩ := findKey_updateRtblEntry_some sp ho he
      obtain rfl := Option.some_injective _ (h.symm.trans h')
      rcases touch_cases sp o e with heq | ⟨h₁, h₂, h₃, h₄⟩
      · exact Or.inl ⟨e, ip, rfl, by rw [heq]⟩
      · exact Or.inr ⟨o, rfl, rfl, h₁.trans hn, h₂.trans hi, h₃.trans ht, by simp, h₄⟩
  · rw [findKey_updateRtblEntry_ne sp ho hk] at h
    exact Or.inl ⟨e', e'.destCanIpStr, h, rfl⟩

/-- An update keeps every key and raises no hop count. -/
theorem exists_findKey_updateRtblEntry {key : ℤ} {e : RtblEntry} (he : findKey key t = some e) :
    ∃ e', findKey key (updateRtblEntry rs sp now p nextHop ifIdx t) = some e' ∧
      e'.hop ≤ e.hop := by
  rcases ho : offer rs now p nextHop ifIdx with _ | o
  · exact ⟨e, by rw [updateRtblEntry_of_offer_none sp ho, he], le_rfl⟩
  by_cases hk : key = o.key
  · subst hk
    obtain ⟨ip, h'⟩ := findKey_updateRtblEntry_some sp ho he
    exact ⟨_, h', touch_hop_le sp o e⟩
  · exact ⟨e, by rw [findKey_updateRtblEntry_ne sp ho hk, he], le_rfl⟩

/-- After an RREQ or an RREP there is an entry under the offer's key, with at most the
offered hop count unless the entry was stale and is compared with another header field. -/
theorem exists_findKey_offer (ho : offer rs now p nextHop ifIdx = some o)
    (hty : p.type ≠ .data) :
    ∃ e', findKey o.key (updateRtblEntry rs sp now p nextHop ifIdx t) = some e' ∧
      ((∀ e, findKey o.key t = some e → o.now - e.ts > sp → min e.hop o.staleHop ≤ o.hop) →
        e'.hop ≤ o.hop) := by
  rcases he : findKey o.key t with _ | e
  · obtain ⟨ip, h'⟩ := findKey_updateRtblEntry_new sp ho hty he
    exact ⟨_, h', fun _ => le_rfl⟩
  · obtain ⟨ip, h'⟩ := findKey_updateRtblEntry_some sp ho he
    refine ⟨_, h', fun hle => ?_⟩
    change (touch sp o e).hop ≤ o.hop
    by_cases hst : o.now - e.ts > sp
    · rw [touch_stale hst, replaceStale_hop]
      exact hle e rfl hst
    · rw [touch_fresh (by omega), improve_hop]
      omega

/-! ## The route after an update -/

/-- The next hop and the interface of an entry. -/
def RtblEntry.route (e : RtblEntry) : HwAddr × ℤ := (e.nextHopHwaddr, e.ifNo)

/-- The route under a key after an update, read off the table before it.  Under the key of the
offer it is the packet's sender and interface if the entry is missing (and the packet is not
DATA), stale, or takes more hops than offered; else it is what it was. -/
def routeAfter (rs : Resolver) (sp now : ℤ) (p : OdrPack) (nextHop : HwAddr) (ifIdx : ℤ)
    (t : Rtbl) (key : ℤ) : Option (HwAddr × ℤ) :=
  match offer rs now p nextHop ifIdx with
  | none => (findKey key t).map RtblEntry.route
  | some o =>
      if key = o.key then
        match findKey key t with
        | none => if p.type = .data then none else some (nextHop, ifIdx)
        | some e =>
            some (if now - e.ts > sp ∨ o.hop < e.hop then (nextHop, ifIdx) else e.route)
      else (findKey key t).map RtblEntry.route

lemma touch_route (o : Offer) (e : RtblEntry) :
    (touch sp o e).route =
      if o.now - e.ts > sp ∨ o.hop < e.hop then (o.nextHop, o.ifIdx) else e.route := by
  by_cases hst : o.now - e.ts > sp
  · rw [touch_stale hst, if_pos (Or.inl hst)]
    rfl
  · rw [touch_fresh (not_lt.mp hst)]
    by_cases hlt : o.hop < e.hop
    · rw [improve_of_lt hlt, if_pos (Or.inr hlt)]
      rfl
    · rw [improve_of_le (not_lt.mp hlt), if_neg (not_or.mpr ⟨hst, hlt⟩)]

theorem route_updateRtblEntry (key : ℤ) :
    (findKey key (updateRtblEntry rs sp now p nextHop ifIdx t)).map RtblEntry.route
      = routeAfter rs sp now p nextHop ifIdx t key := by
  rw [routeAfter]
  rcases ho : offer rs now p nextHop ifIdx with _ | o
  · rw [updateRtblEntry_of_offer_none sp ho]
  obtain ⟨hn, hi, hnow⟩ := offer_nextHop ho
  simp only
  by_cases hk : key = o.key
  · subst hk
    rw [if_pos rfl]
    rcases he : findKey o.key t with _ | e
    · by_cases hty : p.type = .data
      · rw [findKey_updateRtblEntry_data sp ho hty he, if_pos hty]
        rfl
      · obtain ⟨ip, h'⟩ := findKey_updateRtblEntry_new sp ho hty he
        rw [h', if_neg hty, ← hn, ← hi]
        rfl
    · obtain ⟨ip, h'⟩ := findKey_updateRtblEntry_some sp ho he
      rw [h', Option.map_some, ← hn, ← hi, ← hnow]
      exact congrArg some (touch_route sp o e)
  · rw [if_neg hk, findKey_updateRtblEntry_ne sp ho hk]

end Spec

end Odr
