/-
# The routing table represents a map

Whatever packets `update_rtbl_entry` is called with, at whatever times, the table it builds from
the empty one is `Sound`: it has at most one entry for a key, and every entry is filed under the
index of the address it stores.  No call removes a key.

The second pass over an RREQ with `rrep_sent` set would file the destination's address under the
source's key; it never does, because the first pass has left an entry for that key.

It follows that `entry_exists_for_src`, `get_rtbl_entry` and `send_payload`, each with a loop of
its own, agree on every key.
-/
import Odr.Source.ClockedUpdate
import Odr.Source.LinkSend

namespace Odr

/-- A table with at most one entry for a key, in which every entry is filed under the index of
its address. -/
structure Sound (rs : Resolver) (t : Rtbl) : Prop where
  nodup : KeyNodup t
  filed : ∀ e ∈ t, getIndexFromIp rs e.destCanIpStr.str = e.key

/-- A sound table that has grown: its keys continue those of the table before. -/
structure Extends (rs : Resolver) (t t' : Rtbl) : Prop where
  sound : Sound rs t'
  keys : t.map RtblEntry.key <+: t'.map RtblEntry.key

section Update

variable {rs : Resolver} {sp : ℤ} {o : Offer} {clk : ℕ → ℤ} {i : ℕ} {t t' t'' : Rtbl}

lemma Sound.nil : Sound rs [] := ⟨by simp [KeyNodup], by simp⟩

lemma Sound.extends_self (h : Sound rs t) : Extends rs t t := ⟨h, List.prefix_rfl⟩

lemma Extends.trans (h : Extends rs t t') (h' : Extends rs t' t'') : Extends rs t t'' :=
  ⟨h'.sound, h.keys.trans h'.keys⟩

lemma map_key_clockedLoop (sp : ℤ) (o : Offer) (clk : ℕ → ℤ) (i : ℕ) (t : Rtbl) :
    (clockedLoop sp o clk i t).1.map RtblEntry.key = t.map RtblEntry.key := by
  induction t generalizing i with
  | nil => rfl
  | cons e t ih =>
    rw [clockedLoop]
    split
    · next h =>
      split
      · simp [h, Offer.at]
      · simp [ih]
    · simp [ih]

/-- The loop writes the address of the offer, or leaves the address of an entry alone. -/
lemma filed_clockedLoop (ho : getIndexFromIp rs o.ip.str = o.key)
    (h : ∀ e ∈ t, getIndexFromIp rs e.destCanIpStr.str = e.key) :
    ∀ e ∈ (clockedLoop sp o clk i t).1, getIndexFromIp rs e.destCanIpStr.str = e.key := by
  induction t generalizing i with
  | nil => simp [clockedLoop]
  | cons a t ih =>
    intro e he
    have htail : ∀ e ∈ t, getIndexFromIp rs e.destCanIpStr.str = e.key :=
      fun e he => h e (List.mem_cons_of_mem a he)
    rw [clockedLoop] at he
    split at he
    · split at he
      · rcases List.mem_cons.mp he with rfl | he
        · exact ho
        · exact htail e he
      · rcases List.mem_cons.mp he with rfl | he
        · rw [improve_key, RtblEntry.improve]
          split
          · exact h a List.mem_cons_self
          · exact h a List.mem_cons_self
        · exact ih htail e he
    · rcases List.mem_cons.mp he with rfl | he
      · exact h e List.mem_cons_self
      · exact ih htail e he

lemma extends_clockedLoop (sp : ℤ) (clk : ℕ → ℤ) (i : ℕ)
    (ho : getIndexFromIp rs o.ip.str = o.key) (h : Sound rs t) :
    Extends rs t (clockedLoop sp o clk i t).1 where
  sound := ⟨by rw [KeyNodup, map_key_clockedLoop]; exact h.nodup, filed_clockedLoop ho h.filed⟩
  keys := by rw [map_key_clockedLoop]

/-- A table without a key grows by an entry for it. -/
lemma extends_append (h : Sound rs t) {added : RtblEntry}
    (ha : getIndexFromIp rs added.destCanIpStr.str = added.key)
    (hnew : entryExistsForSrc added.key t ≠ 1) : Extends rs t (t ++ [added]) := by
  refine ⟨⟨keyNodup_append h.nodup (entryExistsForSrc_ne_one.mp hnew), fun e he => ?_⟩, by simp⟩
  · rcases List.mem_append.mp he with he | he
    · exact h.filed e he
    · rw [List.mem_singleton.mp he]
      exact ha

lemma entryExistsForSrc_of_mem {e : RtblEntry} (he : e ∈ t) : entryExistsForSrc e.key t = 1 := by
  rw [entryExistsForSrc, if_pos]
  exact List.any_eq_true.mpr ⟨e, he, by simp⟩

/-- The keys decide whether there is an entry. -/
lemma entryExistsForSrc_of_map_key {key : ℤ} (h : t.map RtblEntry.key <+: t'.map RtblEntry.key)
    (hex : entryExistsForSrc key t = 1) : entryExistsForSrc key t' = 1 := by
  rw [entryExistsForSrc_eq_one] at hex
  obtain ⟨e, he⟩ := Option.isSome_iff_exists.mp hex
  have hmem : key ∈ t'.map RtblEntry.key :=
    h.subset (List.mem_map.mpr ⟨e, mem_of_findKey he, key_of_findKey he⟩)
  obtain ⟨e', he', rfl⟩ := List.mem_map.mp hmem
  exact entryExistsForSrc_of_mem he'

/-- A block that inserts the offer's own entry leaves a sound table with an entry for it. -/
lemma extends_clockedOrAdd (sp : ℤ) (clk : ℕ → ℤ) (i : ℕ)
    (ho : getIndexFromIp rs o.ip.str = o.key) (h : Sound rs t) :
    Extends rs t (clockedOrAdd sp o o.entry clk i t).1 ∧
      entryExistsForSrc o.key (clockedOrAdd sp o o.entry clk i t).1 = 1 := by
  rw [clockedOrAdd]
  split
  · next hex =>
    have hext := extends_clockedLoop sp clk i ho h
    exact ⟨hext, entryExistsForSrc_of_map_key hext.keys hex⟩
  · next hex =>
    refine ⟨extends_append h ho hex, ?_⟩
    exact entryExistsForSrc_of_mem (e := { o.entry with ts := clk i }) (by simp)

/-- **Every update keeps the table sound** and all its keys. -/
theorem extends_clockedUpdate (sp : ℤ) (clk : ℕ → ℤ) (p : OdrPack) (nextHop : HwAddr)
    (ifIdx : ℤ) (h : Sound rs t) :
    Extends rs t (clockedUpdate rs sp clk p nextHop ifIdx t) := by
  have hsrc : ∀ x y, getIndexFromIp rs (srcOffer rs (clk 0) p nextHop ifIdx x y).ip.str
      = (srcOffer rs (clk 0) p nextHop ifIdx x y).key := fun _ _ => rfl
  have hdest : ∀ x y, getIndexFromIp rs (destOffer rs (clk 0) p nextHop ifIdx x y).ip.str
      = (destOffer rs (clk 0) p nextHop ifIdx x y).key := fun _ _ => rfl
  rw [clockedUpdate]
  rcases hty : p.type with _ | _ | _ | n
  · simp only
    obtain ⟨hext, hex⟩ :=
      extends_clockedOrAdd sp clk 0 (hsrc p.rreq.hop p.rreq.hop) h
    split
    · exact hext
    split
    · -- the first pass has left an entry, so the second one only runs the loop
      rw [clockedOrAdd, if_pos hex]
      exact hext.trans (extends_clockedLoop sp clk _ (hsrc _ _) hext.sound)
    · exact hext
  · exact (extends_clockedOrAdd sp clk 0 (hdest _ _) h).1
  · simp only
    split
    · have hext := extends_clockedLoop sp clk 0 (hsrc p.rreq.hop p.rreq.hop) h
      split
      · exact hext
      split
      · exact hext.trans (extends_clockedLoop sp clk _ (hdest _ _) hext.sound)
      · exact hext
    · split
      · exact h.extends_self
      split
      · exact extends_clockedLoop sp clk 0 (hdest _ _) h
      · exact h.extends_self
  · exact h.extends_self

end Update

/-! ## The readers of the table -/

/-- The arguments of the `send_ll_msg` calls that `send_payload` makes. -/
def payloadCalls (t : Rtbl) (key : ℤ) : List (HwAddr × ℤ) :=
  (t.filter fun e => e.key = key).map RtblEntry.route

lemma payloadLoop_eq_foldl (res : ℕ → ℤ) (ifs : List IfInfo) (packet : OdrPack) (key : ℤ)
    (t : Rtbl) (log : List Frame) (ret : ℤ) :
    payloadLoop res ifs packet key t log ret =
      (payloadCalls t key).foldl (fun r c => sendLlMsg res ifs packet c.1 c.2 r.1)
        (log, ret) := by
  induction t generalizing log ret with
  | nil => rfl
  | cons e t ih =>
    rw [payloadLoop]
    by_cases h : e.key = key
    · rw [if_pos h, ih]
      simp [payloadCalls, h, RtblEntry.route, -sendLlMsg_fst]
    · rw [if_neg h, ih]
      simp [payloadCalls, h]

lemma okOrErr_sendLlMsg (res : ℕ → ℤ) (ifs : List IfInfo) (packet : OdrPack) (hw : HwAddr)
    (ifNo : ℤ) (log : List Frame) :
    okOrErr (sendLlMsg res ifs packet hw ifNo log) = sendLlMsg res ifs packet hw ifNo log := by
  simp only [sendLlMsg, okOrErr]
  split <;> simp

lemma payloadCalls_of_findKey {t : Rtbl} (ht : KeyNodup t) {key : ℤ} {e : RtblEntry}
    (he : findKey key t = some e) : payloadCalls t key = [(e.nextHopHwaddr, e.ifNo)] := by
  rw [payloadCalls, filter_key_of_findKey ht he]
  rfl

lemma payloadCalls_of_missing {t : Rtbl} {key : ℤ} (he : findKey key t = none) :
    payloadCalls t key = [] := by
  rw [payloadCalls, List.filter_eq_nil_iff.mpr (by simpa using findKey_eq_none.mp he)]
  rfl

/-! ## Sequences of calls -/

/-- The arguments of one call of `update_rtbl_entry`, with the readings of the clock. -/
structure UpdateCall where
  clock : ℕ → ℤ
  pack : OdrPack
  nextHop : HwAddr
  ifIdx : ℤ

/-- The table after a call. -/
def UpdateCall.run (rs : Resolver) (sp : ℤ) (t : Rtbl) (c : UpdateCall) : Rtbl :=
  clockedUpdate rs sp c.clock c.pack c.nextHop c.ifIdx t

/-- The table that a sequence of calls builds from the empty one. -/
def tableOf (rs : Resolver) (sp : ℤ) (cs : List UpdateCall) : Rtbl :=
  cs.foldl (UpdateCall.run rs sp) []

lemma sound_tableOf (rs : Resolver) (sp : ℤ) (cs : List UpdateCall) :
    Sound rs (tableOf rs sp cs) := by
  induction cs using List.reverseRecOn with
  | nil => exact .nil
  | append_singleton cs c ih =>
    rw [tableOf, List.foldl_append]
    exact (extends_clockedUpdate sp c.clock c.pack c.nextHop c.ifIdx ih).sound

/-- **The routing table represents a map.** After every sequence of calls from the empty table
there is at most one entry for a key, each entry is filed under the index of its address, and a
further call removes no key.  Hence, for every address, `entry_exists_for_src` reports an entry
exactly when `get_rtbl_entry` succeeds, and `send_payload` makes exactly one `send_ll_msg` call
then, with the next hop and the interface of the entry found, and none otherwise. -/
theorem table_represents_map (rs : Resolver) (sp : ℤ) (cs : List UpdateCall) :
    KeyNodup (tableOf rs sp cs) ∧
      (∀ e ∈ tableOf rs sp cs, getIndexFromIp rs e.destCanIpStr.str = e.key) ∧
      (∀ c, ∀ e ∈ tableOf rs sp cs, ∃ e' ∈ tableOf rs sp (cs ++ [c]), e'.key = e.key) ∧
      ∀ ip : CanIp,
        (entryExistsForSrc (getIndexFromIp rs ip.str) (tableOf rs sp cs) = 1 ↔
          (getRtblEntry rs ip (tableOf rs sp cs)).isSome) ∧
        (getRtblEntry rs ip (tableOf rs sp cs) = none →
          payloadCalls (tableOf rs sp cs) (getIndexFromIp rs ip.str) = []) ∧
        ∀ e, getRtblEntry rs ip (tableOf rs sp cs) = some e →
          payloadCalls (tableOf rs sp cs) (getIndexFromIp rs ip.str)
            = [(e.nextHopHwaddr, e.ifNo)] ∧
          ∀ res ifs packet log,
            sendPayload res ifs (tableOf rs sp cs) packet (getIndexFromIp rs ip.str) log
              = sendLlMsg res ifs packet e.nextHopHwaddr e.ifNo log := by
  have hs := sound_tableOf rs sp cs
  refine ⟨hs.nodup, hs.filed, fun c e he => ?_, fun ip => ⟨?_, fun hnone => ?_, fun e he => ?_⟩⟩
  · have hext := extends_clockedUpdate sp c.clock c.pack c.nextHop c.ifIdx hs
    have hmem := hext.keys.subset (List.mem_map_of_mem he)
    obtain ⟨e', he', hk⟩ := List.mem_map.mp hmem
    refine ⟨e', ?_, hk⟩
    rw [tableOf, List.foldl_append]
    exact he'
  · rw [getRtblEntry_eq, entryExistsForSrc_eq_one]
  · rw [getRtblEntry_eq] at hnone
    exact payloadCalls_of_missing hnone
  · rw [getRtblEntry_eq] at he
    have hcalls := payloadCalls_of_findKey hs.nodup he
    refine ⟨hcalls, fun res ifs packet log => ?_⟩
    rw [sendPayload, payloadLoop_eq_foldl, hcalls]
    exact okOrErr_sendLlMsg ..

end Odr
