/-
# The routing table in memory

The table of `rtbl.h` as it lies in memory: the entries are cells that `malloc` has given out,
linked into the ring of `rtbl.list`.  `list_add` puts a new entry behind the head, the loops go
round the ring backwards and write to the entries while they do so, and a loop that has replaced a
stale entry is left by a `return`.  Every call of `entry_exists_for_src` allocates an entry that it
never uses.

`memory_refines` says that the daemon cannot tell this from the table that is the list of its
entries from the oldest to the newest: whatever calls are made, every loop ends and every call has
the same result on both.
-/
import Odr.Source.KernelList
import Odr.Source.LinkSend

namespace Odr

open Ring KernelList

/-- The memory of the table: the links, the other fields of the entries by the address of their
links, and the number of entries that have been allocated. -/
structure TableMemory (P : Type*) where
  links : Links P
  cell : P → RtblEntry
  used : ℕ

namespace TableMemory

section Defs

variable {P : Type*} [DecidableEq P] (malloc : ℕ → P) (rtbl : P)

/-- The memory after an entry has been allocated. -/
def alloc (M : TableMemory P) : TableMemory P := { M with used := M.used + 1 }

/-- The memory after the fields of an entry have been written. -/
def write (M : TableMemory P) (p : P) (e : RtblEntry) : TableMemory P :=
  { M with cell := Function.update M.cell p e }

/-- A new entry is allocated, filled in and added to the list. -/
def add (e : RtblEntry) (M : TableMemory P) : TableMemory P :=
  let p := malloc M.used
  let M := M.alloc.write p e
  { M with links := listAdd p rtbl M.links }

/-- `list_for_each_entry_reverse` over the table.  There are no more entries in the list than have
been allocated, which bounds the rounds. -/
def forEachReverse {R : Type*} (body : P → TableMemory P → TableMemory P × Option R)
    (M : TableMemory P) : Option (TableMemory P × Option R) :=
  listForEachEntryReverse TableMemory.links rtbl body (M.used + 1) M

/-- `entry_exists_for_src`, which allocates an entry for its loop variable to point to. -/
def entryExistsForSrc (key : ℤ) (M : TableMemory P) : Option (TableMemory P × ℤ) := do
  let (M, found) ← forEachReverse rtbl
    (fun p M => (M, if (M.cell p).key = key then some (1 : ℤ) else none)) M.alloc
  return (M, found.getD 0)

/-- The body of the loops of `update_rtbl_entry`. -/
def updateBody (sp : ℤ) (o : Offer) (p : P) (M : TableMemory P) : TableMemory P × Option Unit :=
  let e := M.cell p
  if e.key = o.key then
    if o.now - e.ts > sp then (M.write p (e.replaceStale o), some ())
    else (M.write p (e.improve o), none)
  else (M, none)

/-- A loop of `update_rtbl_entry`.  The flag says that it has returned. -/
def updateLoop (sp : ℤ) (o : Offer) (M : TableMemory P) : Option (TableMemory P × Bool) := do
  let (M, returned) ← forEachReverse rtbl (updateBody sp o) M
  return (M, returned.isSome)

/-- A block of `update_rtbl_entry` that inserts a missing entry. -/
def updateOrAdd (sp : ℤ) (o : Offer) (added : RtblEntry) (M : TableMemory P) :
    Option (TableMemory P × Bool) := do
  let (M, found) ← entryExistsForSrc rtbl o.key M
  if found = 1 then updateLoop rtbl sp o M else return (M.add malloc rtbl added, false)

/-- A block of `update_rtbl_entry` that updates an entry if the packet goes in the direction `dir`,
but inserts none. -/
def updateIf (sp : ℤ) (o : Offer) (dir : Prop) [Decidable dir] (M : TableMemory P) :
    Option (TableMemory P × Bool) := do
  let (M, found) ← entryExistsForSrc rtbl o.key M
  if found = 1 ∧ dir then updateLoop rtbl sp o M else return (M, false)

/-- `update_rtbl_entry`. -/
def updateRtblEntry (rs : Resolver) (sp now : ℤ) (p : OdrPack) (nextHop : HwAddr) (ifIdx : ℤ)
    (M : TableMemory P) : Option (TableMemory P) :=
  match p.type with
  | .rreq => do
      let o := srcOffer rs now p nextHop ifIdx p.rreq.hop p.rreq.hop
      let (M, returned) ← updateOrAdd malloc rtbl sp o o.entry M
      if returned then return M
      else if p.rreq.rrepSent = 1 then
        let (M, _) ← updateOrAdd malloc rtbl sp o { o.entry with destCanIpStr := p.destCanIpStr } M
        return M
      else return M
  | .rrep => do
      let o := destOffer rs now p nextHop ifIdx p.rreq.hop p.rrep.hop
      let (M, _) ← updateOrAdd malloc rtbl sp o o.entry M
      return M
  | .data => do
      let (M, returned) ← updateIf rtbl sp
        (srcOffer rs now p nextHop ifIdx p.rreq.hop p.rreq.hop) (p.srcDest = 1) M
      if returned then return M
      else
        let (M, _) ← updateIf rtbl sp
          (destOffer rs now p nextHop ifIdx p.rreq.hop p.rreq.hop) (p.srcDest = -1) M
        return M
  | .other _ => return M

/-- `get_rtbl_entry`. -/
def getRtblEntry (rs : Resolver) (ip : CanIp) (M : TableMemory P) :
    Option (TableMemory P × Option RtblEntry) := do
  let key := getIndexFromIp rs ip.str
  let (M, found) ← entryExistsForSrc rtbl key M
  if found = 1 then
    forEachReverse rtbl (fun p M => (M, if (M.cell p).key = key then some (M.cell p) else none)) M
  else return (M, none)

/-- `send_payload`, with the frames handed over so far. -/
def sendPayload (res : ℕ → ℤ) (ifInfoList : List IfInfo) (packet : OdrPack) (key : ℤ)
    (log : List Frame) (M : TableMemory P) : Option (List Frame × ℤ) := do
  let (r, _) ← listForEachEntryReverse (R := Empty) (fun _ => M.links) rtbl
    (fun p r =>
      if (M.cell p).key = key then
        (sendLlMsg res ifInfoList packet (M.cell p).nextHopHwaddr (M.cell p).ifNo r.1, none)
      else (r, none))
    (M.used + 1) (log, 0)
  return okOrErr r

end Defs

/-! ## What the memory holds -/

section

variable {P : Type*} (malloc : ℕ → P) (rtbl : P)

/-- The memory holds the table `t`: its entries are the cells of the ring of `rtbl.list`, read
backwards, and they have been allocated. -/
def Holds (M : TableMemory P) (t : Rtbl) : Prop :=
  ∃ l, IsRing M.links rtbl l ∧ l.reverse.map M.cell = t ∧ ∀ p ∈ l, ∃ i < M.used, malloc i = p

end

variable {P : Type*} [DecidableEq P] {malloc : ℕ → P} {rtbl : P} {M : TableMemory P} {t : Rtbl}
  {sp : ℤ} {o : Offer} {l : List P}

omit [DecidableEq P] in
/-- There are no more entries than have been allocated. -/
lemma length_lt_used (hnd : l.Nodup) (hold : ∀ p ∈ l, ∃ i < M.used, malloc i = p) :
    l.length < M.used + 1 := by
  have hsub : l ⊆ (List.range M.used).map malloc := by
    intro p hp
    obtain ⟨i, hi, rfl⟩ := hold p hp
    exact List.mem_map_of_mem (List.mem_range.mpr hi)
  have hle := (hnd.subperm hsub).length_le
  rw [List.length_map, List.length_range] at hle
  exact Nat.lt_succ_of_le hle

/-- A loop over the table visits its entries from the oldest to the newest. -/
lemma forEachReverse_eq {R : Type*} {body : P → TableMemory P → TableMemory P × Option R}
    (hkeep : ∀ p M, (body p M).1.links = M.links) (hR : IsRing M.links rtbl l)
    (hold : ∀ p ∈ l, ∃ i < M.used, malloc i = p) :
    forEachReverse rtbl body M = some (visit body l.reverse M) :=
  walk_ring_reverse TableMemory.links hkeep hR (length_lt_used (List.nodup_cons.mp hR.nodup).2 hold)

omit [DecidableEq P] in
lemma Holds.alloc (h : Holds malloc rtbl M t) : Holds malloc rtbl M.alloc t := by
  obtain ⟨l, hR, hl, hold⟩ := h
  exact ⟨l, hR, hl, fun p hp => (hold p hp).imp fun i hi => ⟨Nat.lt_succ_of_lt hi.1, hi.2⟩⟩

omit [DecidableEq P] in
/-- A loop that looks for an entry finds the first one with the key. -/
lemma visit_find {R : Type*} (key : ℤ) (f : RtblEntry → R) (l : List P) :
    visit (fun p M => (M, if (TableMemory.cell M p).key = key then some (f (M.cell p)) else none))
      l M = (M, (findKey key (l.map M.cell)).map f) := by
  induction l with
  | nil => rfl
  | cons p l ih =>
    rw [visit, List.map_cons, findKey_cons]
    by_cases hp : (M.cell p).key = key
    · simp [hp]
    · simp [hp, ih]

/-- `entry_exists_for_src` has the same result on the list. -/
lemma Holds.entryExistsForSrc (h : Holds malloc rtbl M t) (key : ℤ) :
    entryExistsForSrc rtbl key M = some (M.alloc, Odr.entryExistsForSrc key t) := by
  obtain ⟨l, hR, hl, hold⟩ := h.alloc
  have hfind := visit_find (M := M.alloc) key (fun _ => (1 : ℤ)) l.reverse
  rw [hl] at hfind
  rw [TableMemory.entryExistsForSrc, forEachReverse_eq (fun _ _ => rfl) hR hold, hfind]
  rcases hk : findKey key t with _ | e
  · have h0 := entryExistsForSrc_eq_zero.mpr hk
    simp [h0]
  · have h1 := entryExistsForSrc_eq_one_iff.mpr ⟨e, hk⟩
    simp [h1]

/-- A loop of `update_rtbl_entry` writes to the entries what it writes to those of the list. -/
lemma visit_updateBody (sp : ℤ) (o : Offer) (l : List P) (hnd : l.Nodup) (M : TableMemory P) :
    (visit (updateBody sp o) l M).1.links = M.links ∧
      (visit (updateBody sp o) l M).1.used = M.used ∧
      (∀ p, p ∉ l → (visit (updateBody sp o) l M).1.cell p = M.cell p) ∧
      l.map (visit (updateBody sp o) l M).1.cell = (Odr.updateLoop sp o (l.map M.cell)).1 ∧
      (visit (updateBody sp o) l M).2.isSome = (Odr.updateLoop sp o (l.map M.cell)).2 := by
  induction l generalizing M with
  | nil => simp [visit, Odr.updateLoop]
  | cons p l ih =>
    obtain ⟨hp, hnd⟩ := List.nodup_cons.mp hnd
    have hrest : ∀ e, l.map (M.write p e).cell = l.map M.cell := by
      intro e
      refine List.map_congr_left fun q hq => Function.update_of_ne ?_ _ _
      exact fun h => hp (h ▸ hq)
    have hout : ∀ e q, q ∉ p :: l → (M.write p e).cell q = M.cell q := by
      intro e q hq
      exact Function.update_of_ne (fun h => hq (by simp [h])) _ _
    simp only [visit, List.map_cons, Odr.updateLoop, updateBody]
    by_cases hk : (M.cell p).key = o.key
    · by_cases hst : o.now - (M.cell p).ts > sp
      · simp only [hk, hst, if_true]
        refine ⟨rfl, rfl, hout _, ?_, rfl⟩
        rw [hrest]
        simp [write]
      · simp only [hk, hst, if_true, if_false]
        obtain ⟨h₁, h₂, h₃, h₄, h₅⟩ := ih hnd (M.write p ((M.cell p).improve o))
        rw [hrest] at h₄ h₅
        refine ⟨h₁, h₂, fun q hq => ?_, ?_, h₅⟩
        · exact (h₃ q fun h => hq (List.mem_cons_of_mem _ h)).trans (hout _ q hq)
        · rw [h₄, h₃ p hp]
          simp [write]
    · simp only [hk, if_false]
      obtain ⟨h₁, h₂, h₃, h₄, h₅⟩ := ih hnd M
      refine ⟨h₁, h₂, fun q hq => h₃ q fun h => hq (List.mem_cons_of_mem _ h), ?_, h₅⟩
      rw [h₄, h₃ p hp]

lemma updateBody_links (sp : ℤ) (o : Offer) (p : P) (M : TableMemory P) :
    (updateBody sp o p M).1.links = M.links := by
  rw [updateBody]
  split
  · split <;> rfl
  · rfl

lemma Holds.updateLoop (h : Holds malloc rtbl M t) (sp : ℤ) (o : Offer) :
    ∃ M', updateLoop rtbl sp o M = some (M', (Odr.updateLoop sp o t).2) ∧
      Holds malloc rtbl M' (Odr.updateLoop sp o t).1 := by
  obtain ⟨l, hR, rfl, hold⟩ := h
  have hnd := List.nodup_reverse.mpr (List.nodup_cons.mp hR.nodup).2
  obtain ⟨h₁, h₂, -, h₄, h₅⟩ := visit_updateBody sp o l.reverse hnd M
  refine ⟨(visit (updateBody sp o) l.reverse M).1, ?_, l, by rwa [h₁], h₄, by rwa [h₂]⟩
  rw [TableMemory.updateLoop, forEachReverse_eq (updateBody_links sp o) hR hold, ← h₅]
  rfl

/-- A new entry becomes the newest one. -/
lemma Holds.add (hinj : Function.Injective malloc) (hhead : ∀ i, malloc i ≠ rtbl)
    (h : Holds malloc rtbl M t) (e : RtblEntry) :
    Holds malloc rtbl (M.add malloc rtbl e) (t ++ [e]) := by
  obtain ⟨l, hR, rfl, hold⟩ := h
  have hfresh : malloc M.used ∉ l := by
    intro hm
    obtain ⟨i, hi, heq⟩ := hold _ hm
    exact absurd (hinj heq) (by omega)
  have hnew : malloc M.used ∉ rtbl :: l := by
    rw [List.mem_cons, not_or]
    exact ⟨hhead _, hfresh⟩
  refine ⟨malloc M.used :: l, isRing_listAdd hR hnew, ?_, fun p hp => ?_⟩
  · have hrest : l.reverse.map (Function.update M.cell (malloc M.used) e)
        = l.reverse.map M.cell := by
      refine List.map_congr_left fun q hq => Function.update_of_ne ?_ _ _
      exact fun h => hfresh (h ▸ List.mem_reverse.mp hq)
    simp [TableMemory.add, write, TableMemory.alloc, hrest]
  · rcases List.mem_cons.mp hp with rfl | hp
    · exact ⟨M.used, Nat.lt_succ_self _, rfl⟩
    · exact (hold p hp).imp fun i hi => ⟨Nat.lt_succ_of_lt hi.1, hi.2⟩

/-! ## Calls -/

section Calls

variable (hinj : Function.Injective malloc) (hhead : ∀ i, malloc i ≠ rtbl)

include hinj hhead in
lemma Holds.updateOrAdd (h : Holds malloc rtbl M t) (sp : ℤ) (o : Offer) (added : RtblEntry) :
    ∃ M', updateOrAdd malloc rtbl sp o added M = some (M', (Odr.updateOrAdd sp o added t).2) ∧
      Holds malloc rtbl M' (Odr.updateOrAdd sp o added t).1 := by
  rw [TableMemory.updateOrAdd, h.entryExistsForSrc, Odr.updateOrAdd]
  by_cases hex : Odr.entryExistsForSrc o.key t = 1
  · simpa [hex] using h.alloc.updateLoop sp o
  · exact ⟨M.alloc.add malloc rtbl added, by simp [hex],
      by simpa [hex] using h.alloc.add hinj hhead added⟩

lemma Holds.updateIf (h : Holds malloc rtbl M t) (sp : ℤ) (o : Offer) (dir : Prop)
    [Decidable dir] :
    ∃ M', updateIf rtbl sp o dir M = some (M',
        (if Odr.entryExistsForSrc o.key t = 1 ∧ dir then Odr.updateLoop sp o t else (t, false)).2) ∧
      Holds malloc rtbl M'
        (if Odr.entryExistsForSrc o.key t = 1 ∧ dir then Odr.updateLoop sp o t else (t, false)).1
    := by
  rw [TableMemory.updateIf, h.entryExistsForSrc]
  by_cases hex : Odr.entryExistsForSrc o.key t = 1 ∧ dir
  · simpa [hex] using h.alloc.updateLoop sp o
  · exact ⟨M.alloc, by simp [hex], by simpa [hex] using h.alloc⟩

include hinj hhead in
/-- `update_rtbl_entry` does to the memory what it does to the list. -/
lemma Holds.updateRtblEntry (h : Holds malloc rtbl M t) (rs : Resolver) (sp now : ℤ) (p : OdrPack)
    (nextHop : HwAddr) (ifIdx : ℤ) :
    ∃ M', updateRtblEntry malloc rtbl rs sp now p nextHop ifIdx M = some M' ∧
      Holds malloc rtbl M' (Odr.updateRtblEntry rs sp now p nextHop ifIdx t) := by
  rw [TableMemory.updateRtblEntry, Odr.updateRtblEntry]
  rcases p.type with _ | _ | _ | x
  · dsimp only
    generalize srcOffer rs now p nextHop ifIdx p.rreq.hop p.rreq.hop = o
    obtain ⟨M₁, hM₁, h₁⟩ := h.updateOrAdd hinj hhead sp o o.entry
    rw [hM₁]
    generalize Odr.updateOrAdd sp o o.entry t = r at h₁ ⊢
    by_cases hret : r.2 = true
    · exact ⟨M₁, by simp [hret], by simpa [hret] using h₁⟩
    by_cases hsent : p.rreq.rrepSent = 1
    · obtain ⟨M₂, hM₂, h₂⟩ := h₁.updateOrAdd hinj hhead sp o
        { o.entry with destCanIpStr := p.destCanIpStr }
      exact ⟨M₂, by simp [hret, hsent, hM₂], by simpa [hret, hsent] using h₂⟩
    · exact ⟨M₁, by simp [hret, hsent], by simpa [hret, hsent] using h₁⟩
  · dsimp only
    obtain ⟨M₁, hM₁, h₁⟩ := h.updateOrAdd hinj hhead sp
      (destOffer rs now p nextHop ifIdx p.rreq.hop p.rrep.hop) (Offer.entry _)
    exact ⟨M₁, by simp [hM₁], h₁⟩
  · dsimp only
    generalize srcOffer rs now p nextHop ifIdx p.rreq.hop p.rreq.hop = o₁
    generalize destOffer rs now p nextHop ifIdx p.rreq.hop p.rreq.hop = o₂
    obtain ⟨M₁, hM₁, h₁⟩ := h.updateIf sp o₁ (p.srcDest = 1)
    rw [hM₁]
    generalize (if Odr.entryExistsForSrc o₁.key t = 1 ∧ p.srcDest = 1 then
      Odr.updateLoop sp o₁ t else (t, false)) = r at h₁ ⊢
    by_cases hret : r.2 = true
    · exact ⟨M₁, by simp [hret], by simpa [hret] using h₁⟩
    · obtain ⟨M₂, hM₂, h₂⟩ := h₁.updateIf sp o₂ (p.srcDest = -1)
      refine ⟨M₂, by simp [hret, hM₂], ?_⟩
      rw [if_neg hret]
      split
      · next hex => rwa [if_pos hex] at h₂
      · next hex => rwa [if_neg hex] at h₂
  · exact ⟨M, rfl, h⟩

/-- `get_rtbl_entry` finds the same entry on the list. -/
lemma Holds.getRtblEntry (h : Holds malloc rtbl M t) (rs : Resolver) (ip : CanIp) :
    getRtblEntry rtbl rs ip M = some (M.alloc, Odr.getRtblEntry rs ip t) := by
  rw [TableMemory.getRtblEntry, Odr.getRtblEntry]
  simp only [h.entryExistsForSrc, Option.bind_eq_bind, Option.bind_some]
  split
  · obtain ⟨l, hR, hl, hold⟩ := h.alloc
    have hfind := visit_find (M := M.alloc) (getIndexFromIp rs ip.str) id l.reverse
    rw [hl, Option.map_id] at hfind
    exact (forEachReverse_eq (fun _ _ => rfl) hR hold).trans (congrArg some hfind)
  · rfl

omit [DecidableEq P] in
lemma visit_payload (res : ℕ → ℤ) (ifs : List IfInfo) (packet : OdrPack) (key : ℤ)
    (M : TableMemory P) (l : List P) (r : List Frame × ℤ) :
    visit (R := Empty) (fun p r =>
      if (M.cell p).key = key then
        (sendLlMsg res ifs packet (M.cell p).nextHopHwaddr (M.cell p).ifNo r.1, none)
      else (r, none)) l r = (payloadLoop res ifs packet key (l.map M.cell) r.1 r.2, none) := by
  induction l generalizing r with
  | nil => rfl
  | cons p l ih =>
    rw [visit, List.map_cons, payloadLoop]
    by_cases hp : (M.cell p).key = key
    · simp only [hp, if_true]
      exact ih _
    · simp only [hp, if_false]
      exact ih r

/-- `send_payload` hands over the same frames. -/
lemma Holds.sendPayload (h : Holds malloc rtbl M t) (res : ℕ → ℤ) (ifs : List IfInfo)
    (packet : OdrPack) (key : ℤ) (log : List Frame) :
    sendPayload rtbl res ifs packet key log M
      = some (Odr.sendPayload res ifs t packet key log) := by
  obtain ⟨l, hR, rfl, hold⟩ := h
  have hlen := length_lt_used (List.nodup_cons.mp hR.nodup).2 hold
  rw [TableMemory.sendPayload, listForEachEntryReverse,
    walk_ring_reverse (fun _ => M.links) (fun _ _ => rfl) hR hlen, visit_payload]
  rfl

end Calls

/-! ## Runs -/

/-- The calls that the daemon makes on its table. -/
inductive Call
  | update (now : ℤ) (p : OdrPack) (nextHop : HwAddr) (ifIdx : ℤ)
  | entryExists (key : ℤ)
  | get (ip : CanIp)
  | send (packet : OdrPack) (key : ℤ) (log : List Frame)

/-- What a call returns. -/
inductive Answer
  | done
  | found (n : ℤ)
  | entry (e : Option RtblEntry)
  | sent (r : List Frame × ℤ)
deriving DecidableEq

section Runs

variable (malloc rtbl) (rs : Resolver) (sp : ℤ) (res : ℕ → ℤ) (ifs : List IfInfo)

/-- A call on the list of the entries. -/
def Call.onList (t : Rtbl) : Call → Rtbl × Answer
  | .update now p nextHop ifIdx => (Odr.updateRtblEntry rs sp now p nextHop ifIdx t, .done)
  | .entryExists key => (t, .found (Odr.entryExistsForSrc key t))
  | .get ip => (t, .entry (Odr.getRtblEntry rs ip t))
  | .send packet key log => (t, .sent (Odr.sendPayload res ifs t packet key log))

/-- A call in memory. -/
def Call.inMemory (M : TableMemory P) : Call → Option (TableMemory P × Answer)
  | .update now p nextHop ifIdx =>
      (updateRtblEntry malloc rtbl rs sp now p nextHop ifIdx M).map fun M => (M, .done)
  | .entryExists key => (entryExistsForSrc rtbl key M).map fun r => (r.1, .found r.2)
  | .get ip => (getRtblEntry rtbl rs ip M).map fun r => (r.1, .entry r.2)
  | .send packet key log =>
      (sendPayload rtbl res ifs packet key log M).map fun r => (M, .sent r)

/-- The answers to a sequence of calls on the list. -/
def answersOnList : List Call → Rtbl → List Answer
  | [], _ => []
  | c :: cs, t => (c.onList rs sp res ifs t).2 :: answersOnList cs (c.onList rs sp res ifs t).1

/-- The answers to a sequence of calls in memory, `none` if a loop goes round for ever. -/
def answersInMemory : List Call → TableMemory P → Option (List Answer)
  | [], _ => some []
  | c :: cs, M =>
      (c.inMemory malloc rtbl rs sp res ifs M).bind fun r =>
        (answersInMemory cs r.1).map fun answers => r.2 :: answers

variable {malloc rtbl}

lemma Holds.call (hinj : Function.Injective malloc) (hhead : ∀ i, malloc i ≠ rtbl)
    (h : Holds malloc rtbl M t) (c : Call) :
    ∃ M', c.inMemory malloc rtbl rs sp res ifs M = some (M', (c.onList rs sp res ifs t).2) ∧
      Holds malloc rtbl M' (c.onList rs sp res ifs t).1 := by
  cases c with
  | update now p nextHop ifIdx =>
    obtain ⟨M', hM', h'⟩ := h.updateRtblEntry hinj hhead rs sp now p nextHop ifIdx
    exact ⟨M', by simp [Call.inMemory, hM', Call.onList], h'⟩
  | entryExists key =>
    exact ⟨M.alloc, by simp [Call.inMemory, h.entryExistsForSrc, Call.onList], h.alloc⟩
  | get ip => exact ⟨M.alloc, by simp [Call.inMemory, h.getRtblEntry, Call.onList], h.alloc⟩
  | send packet key log => exact ⟨M, by simp [Call.inMemory, h.sendPayload, Call.onList], h⟩

lemma Holds.calls (hinj : Function.Injective malloc) (hhead : ∀ i, malloc i ≠ rtbl)
    (h : Holds malloc rtbl M t) (cs : List Call) :
    answersInMemory malloc rtbl rs sp res ifs cs M
      = some (answersOnList rs sp res ifs cs t) := by
  induction cs generalizing M t with
  | nil => rfl
  | cons c cs ih =>
    obtain ⟨M', hM', h'⟩ := h.call rs sp res ifs hinj hhead c
    simp [answersInMemory, answersOnList, hM', ih h']

/-- **The table in memory.** Let `malloc` give out a new address each time, and never that of the
head.  Then, whatever the memory holds before `INIT_LIST_HEAD`, after it every sequence of calls of
`update_rtbl_entry`, `entry_exists_for_src`, `get_rtbl_entry` and `send_payload` comes to an end,
and each call has the result that it has on the list of the entries. -/
theorem memory_refines (hinj : Function.Injective malloc) (hhead : ∀ i, malloc i ≠ rtbl)
    (links : Links P) (cell : P → RtblEntry) (rs : Resolver) (sp : ℤ) (res : ℕ → ℤ)
    (ifs : List IfInfo) (cs : List Call) :
    answersInMemory malloc rtbl rs sp res ifs cs ⟨initListHead rtbl links, cell, 0⟩
      = some (answersOnList rs sp res ifs cs []) :=
  Holds.calls rs sp res ifs hinj hhead ⟨[], isRing_initListHead rtbl links, rfl, by simp⟩ cs

/-- Two RREQs come in, the second over fewer hops, and the entry is read. -/
theorem memory_refines_two :
    answersInMemory (fun i => i + 1) 0 ⟨fun _ _ => 49, fun _ => []⟩ 5 (fun _ => 1) []
      [.update 0 ⟨.rreq, CanIp.cut [], CanIp.cut [], ⟨3, 1, 0, 0⟩, ⟨-1, -1, -1⟩, [], 1⟩ 7 1,
        .update 1 ⟨.rreq, CanIp.cut [], CanIp.cut [], ⟨2, 1, 0, 0⟩, ⟨-1, -1, -1⟩, [], 1⟩ 8 2,
        .get (CanIp.cut [])]
      ⟨initListHead 0 ⟨fun _ => 9, fun _ => 9⟩, fun _ => ⟨0, CanIp.cut [], 0, 0, 0, 0⟩, 0⟩
      = some [.done, .done, .entry (some ⟨1, CanIp.cut [], 8, 2, 2, 1⟩)] :=
  (memory_refines (fun _ _ h => Nat.succ_injective h) (fun i => Nat.succ_ne_zero i) _ _ _ _ _ _
    _).trans (by decide)

end Runs

end TableMemory

end Odr
