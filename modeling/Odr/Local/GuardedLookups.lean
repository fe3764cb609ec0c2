/-
# Guarded lookups

`process_pack` looks an entry of the routing table up at seven places.  At six of them the entry
is there: the update of the same packet has left one for the source of an RREQ and for the
destination of an RREP, and the other places have just asked `entry_exists_for_src` for the key
that they go on to look up.  The seventh is the answer of the time server, which leaves without a
test.

So what `get_rtbl_entry` would leave in its output arguments when it finds nothing is never
read, and every frame that is not flooded leaves along an entry of the table.
-/
import Odr.Source.TracedPack
import Odr.Table.Representation

namespace Odr

/-! ## After the update -/

section Update

variable {srcIdx destIdx sp : ℤ} {clk : ℕ → ℤ} {p : OdrPack} {nextHop : HwAddr} {ifIdx : ℤ}
  {t : Rtbl}

lemma exists_findKey_of_map_key {key : ℤ} (h : key ∈ t.map RtblEntry.key) :
    ∃ e, findKey key t = some e := by
  obtain ⟨e, he, rfl⟩ := List.mem_map.mp h
  exact entryExistsForSrc_eq_one_iff.mp (entryExistsForSrc_of_mem he)

/-- A block that inserts the offer's own entry keeps the keys and has the offer's one. -/
lemma map_key_clockedOrAdd (sp : ℤ) (o : Offer) (clk : ℕ → ℤ) (i : ℕ) (t : Rtbl) :
    t.map RtblEntry.key <+: (clockedOrAdd sp o o.entry clk i t).1.map RtblEntry.key ∧
      o.key ∈ (clockedOrAdd sp o o.entry clk i t).1.map RtblEntry.key := by
  rw [clockedOrAdd]
  split
  · next hex =>
    rw [map_key_clockedLoop]
    obtain ⟨e, he⟩ := entryExistsForSrc_eq_one_iff.mp hex
    exact ⟨List.prefix_rfl, List.mem_map.mpr ⟨e, mem_of_findKey he, key_of_findKey he⟩⟩
  · exact ⟨by simp, by simp [Offer.entry]⟩

/-- After an RREQ there is an entry for its source, stale or not before. -/
lemma exists_findKey_rreq (hty : p.type = .rreq) :
    ∃ e, findKey srcIdx (clockedUpdateAt srcIdx destIdx sp clk p nextHop ifIdx t) = some e := by
  apply exists_findKey_of_map_key
  rw [clockedUpdateAt, hty]
  dsimp only
  obtain ⟨-, hmem⟩ := map_key_clockedOrAdd sp
    ⟨srcIdx, p.srcCanIpStr, nextHop, ifIdx, p.rreq.hop, p.rreq.hop, clk 0⟩ clk 0 t
  split
  · exact hmem
  split
  · -- the second pass finds the entry that the first one has left
    have hex := entryExistsForSrc_eq_one_iff.mpr (exists_findKey_of_map_key hmem)
    rw [clockedOrAdd, if_pos hex, map_key_clockedLoop]
    exact hmem
  · exact hmem

/-- After an RREP there is an entry for its destination. -/
lemma exists_findKey_rrep (hty : p.type = .rrep) :
    ∃ e, findKey destIdx (clockedUpdateAt srcIdx destIdx sp clk p nextHop ifIdx t) = some e := by
  apply exists_findKey_of_map_key
  rw [clockedUpdateAt, hty]
  exact (map_key_clockedOrAdd sp _ clk 0 t).2

end Update

/-! ## The lookups of one packet -/

/-- A frame of a flood. -/
def Flooded (ifs : List IfInfo) (f : Frame) : Prop := ∃ recvIf, f ∈ bcastFrames ifs f.pack recvIf

/-- A frame that leaves along an entry. -/
def Follows (ifs : List IfInfo) (e : RtblEntry) (f : Frame) : Prop :=
  f ∈ llFrames ifs f.pack e.nextHopHwaddr e.ifNo

/-- Every lookup but the one that is not guarded finds an entry of the table that is left, and
every frame is flooded or leaves along an entry that was found. -/
structure Traced.Guarded (ifs : List IfInfo) (tr : Traced) : Prop where
  entry : ∀ l ∈ tr.lookups, l.entry = findKey l.key tr.out.node.rtbl
  hits : ∀ l ∈ tr.lookups, l.site ≠ .dataTurn → ∃ e, l.entry = some e
  sent : ∀ f ∈ tr.out.sent,
    Flooded ifs f ∨ ∃ l ∈ tr.lookups, ∃ e, l.entry = some e ∧ Follows ifs e f

section Lookups

variable {h : Host} {res : ℕ → ℤ} {junk : RtblRead} {srcIdx destIdx : ℤ} {io : UnixIo} {t : Rtbl}
  {s : Node} {p : OdrPack} {recvIf : ℤ} {ifs : List IfInfo} {q : OdrPack} {f : Frame}

lemma Flooded.of_mem {r : ℤ} (hf : f ∈ bcastFrames ifs q r) : Flooded ifs f :=
  ⟨r, by rwa [pack_of_mem_bcastFrames hf]⟩

lemma Follows.of_mem {e : RtblEntry} (hf : f ∈ llFrames ifs q e.nextHopHwaddr e.ifNo) :
    Follows ifs e f := by
  rwa [Follows, pack_of_mem_llFrames hf]

/-- In a table with one entry for a key `send_payload` sends along the entry that is found. -/
lemma Follows.of_payloadFrames (ht : KeyNodup t) {key : ℤ} {e : RtblEntry}
    (he : findKey key t = some e) (hf : f ∈ payloadFrames ifs t q key) : Follows ifs e f := by
  rw [payloadFrames, filter_key_of_findKey ht he, List.flatMap_singleton] at hf
  exact .of_mem hf

/-- A path without lookups. -/
lemma Traced.Guarded.unlooked {s' : Node} {q : OdrPack} {ret : ℤ} {fs : List Frame}
    {ux : List UnixSend} {is : List ℤ} (hfs : ∀ f ∈ fs, Flooded ifs f) :
    Traced.Guarded ifs ⟨⟨s', q, ret, fs, ux⟩, [], is⟩ where
  entry := by simp
  hits := by simp
  sent f hf := Or.inl (hfs f hf)

/-- A path with a lookup that finds an entry. -/
lemma Traced.Guarded.looked {s' : Node} {q : OdrPack} {ret : ℤ} {fs : List Frame}
    {ux : List UnixSend} {is : List ℤ} {site : Site} {key : ℤ} {e : RtblEntry}
    (hs : s'.rtbl = t) (he : findKey key t = some e)
    (hfs : ∀ f ∈ fs, Flooded ifs f ∨ Follows ifs e f) :
    Traced.Guarded ifs ⟨⟨s', q, ret, fs, ux⟩, [⟨site, key, findKey key t⟩], is⟩ where
  entry := by simp [hs]
  hits := by simp [he]
  sent f hf := (hfs f hf).imp_right fun hf => ⟨_, List.mem_singleton_self _, e, he, hf⟩

lemma rreqAt_guarded (hsrc : ∃ e, findKey srcIdx t = some e) :
    (rreqAt h res junk srcIdx destIdx t s p recvIf).Guarded h.ifInfoList := by
  obtain ⟨e, he⟩ := hsrc
  dsimp only [rreqAt]
  by_cases hsent : p.rreq.rrepSent = 1
  · rw [if_pos hsent]
    exact .unlooked (by simp)
  rw [if_neg hsent]
  by_cases hself : isSelfDest h p.destCanIpStr = 1
  · rw [if_pos hself, if_neg (getRtblEntryInto_ret_ne he junk), getRtblEntryInto_of_some he]
    refine .looked rfl he fun f hf => ?_
    rw [sendLlMsg_fst] at hf
    exact Or.inr (.of_mem hf)
  rw [if_neg hself]
  by_cases hnew : (s.latestRreq srcIdx).toInt < p.rreq.broadcastId
  · rw [if_pos hnew]
    by_cases hflood : entryExistsForSrc destIdx t = 0 ∨ s.forcedDiscovery = 1
    · rw [if_pos hflood]
      refine .unlooked fun f hf => ?_
      rw [broadcastLlMsg_fst] at hf
      exact .of_mem hf
    · obtain ⟨e', he'⟩ := entryExistsForSrc_ne_zero.mp (not_or.mp hflood).1
      rw [if_neg hflood, if_neg (getRtblEntryInto_ret_ne he' _), getRtblEntryInto_of_some he']
      refine .looked rfl he' fun f hf => ?_
      rw [broadcastLlMsg_fst, sendLlMsg_fst, List.nil_append] at hf
      rcases List.mem_append.mp hf with hf | hf
      · exact Or.inr (.of_mem hf)
      · exact Or.inl (.of_mem hf)
  · rw [if_neg hnew]
    exact .unlooked (by simp)

lemma rrepAt_guarded (ht : KeyNodup t) (hdest : ∃ e, findKey destIdx t = some e) :
    (rrepAt h res junk srcIdx destIdx t s p).Guarded h.ifInfoList := by
  obtain ⟨e, he⟩ := hdest
  dsimp only [rrepAt]
  by_cases hself : isSelfSrc h p.srcCanIpStr = 1
  · rw [if_pos hself]
    by_cases hrd : s.routeDiscovered = 0
    · rw [if_pos hrd]
      refine .looked rfl he fun f hf => ?_
      rw [sendPayload_fst] at hf
      exact Or.inr (.of_payloadFrames ht he hf)
    · rw [if_neg hrd]
      exact .unlooked (by simp)
  rw [if_neg hself]
  by_cases hex : entryExistsForSrc srcIdx t = 0
  · rw [if_pos hex]
    exact .unlooked (by simp)
  · obtain ⟨e', he'⟩ := entryExistsForSrc_ne_zero.mp hex
    rw [if_neg hex, if_neg (getRtblEntryInto_ret_ne he' junk), getRtblEntryInto_of_some he']
    refine .looked rfl he' fun f hf => ?_
    rw [sendLlMsg_fst] at hf
    exact Or.inr (.of_mem hf)

lemma dataAt_guarded (ht : KeyNodup t) :
    (dataAt h res srcIdx destIdx io t s p).Guarded h.ifInfoList := by
  have hway : ∀ {key : ℤ} {site : Site}, entryExistsForSrc key t ≠ 0 →
      Traced.Guarded h.ifInfoList
        ⟨⟨{ s with rtbl := t }, p, (sendPayload res h.ifInfoList t p key []).2,
          (sendPayload res h.ifInfoList t p key []).1, []⟩,
          [⟨site, key, findKey key t⟩], []⟩ := by
    intro key site hex
    obtain ⟨e, he⟩ := entryExistsForSrc_ne_zero.mp hex
    refine .looked rfl he fun f hf => ?_
    rw [sendPayload_fst] at hf
    exact Or.inr (.of_payloadFrames ht he hf)
  dsimp only [dataAt]
  by_cases hsrc : isSelfSrc h p.srcCanIpStr ≠ 0
  · rw [if_pos hsrc]
    exact .unlooked (by simp)
  rw [if_neg hsrc]
  by_cases hdest : isSelfDest h p.destCanIpStr ≠ 0
  · rw [if_pos hdest]
    rcases io.answer with _ | text
    · exact .unlooked (by simp)
    · refine ⟨by simp, by simp, fun f hf => Or.inr ?_⟩
      -- without an entry nothing leaves
      dsimp only at hf
      rw [sendPayload_fst] at hf
      obtain ⟨e, he, rfl, -⟩ := mem_payloadFrames.mp hf
      have he := findKey_of_mem ht he
      exact ⟨_, List.mem_singleton_self _, e, he, .of_payloadFrames ht he hf⟩
  rw [if_neg hdest]
  by_cases hto : p.srcDest = 1
  · rw [if_pos hto]
    by_cases hex : entryExistsForSrc destIdx t = 0
    · rw [if_pos hex]
      exact .unlooked (by simp)
    · rw [if_neg hex]
      exact hway hex
  rw [if_neg hto]
  by_cases hback : p.srcDest = -1
  · rw [if_pos hback]
    by_cases hex : entryExistsForSrc srcIdx t = 0
    · rw [if_pos hex]
      exact .unlooked (by simp)
    · rw [if_neg hex]
      exact hway hex
  · rw [if_neg hback]
    exact .unlooked (by simp)

/-- What the output arguments held before is never read. -/
lemma rreqAt_junk (hsrc : ∃ e, findKey srcIdx t = some e) (junk' : RtblRead) :
    rreqAt h res junk srcIdx destIdx t s p recvIf
      = rreqAt h res junk' srcIdx destIdx t s p recvIf := by
  obtain ⟨e, he⟩ := hsrc
  dsimp only [rreqAt]
  rw [getRtblEntryInto_of_some he, getRtblEntryInto_of_some he]
  by_cases hflood : entryExistsForSrc destIdx t = 0 ∨ s.forcedDiscovery = 1
  · simp only [if_pos hflood]
  · obtain ⟨e', he'⟩ := entryExistsForSrc_ne_zero.mp (not_or.mp hflood).1
    simp only [getRtblEntryInto_of_some he']

lemma rrepAt_junk (junk' : RtblRead) :
    rrepAt h res junk srcIdx destIdx t s p = rrepAt h res junk' srcIdx destIdx t s p := by
  dsimp only [rrepAt]
  by_cases hex : entryExistsForSrc srcIdx t = 0
  · simp only [if_pos hex]
  · obtain ⟨e, he⟩ := entryExistsForSrc_ne_zero.mp hex
    simp only [getRtblEntryInto_of_some he]

variable {sp : ℤ} {clk : ℕ → ℤ} {srcHw : HwAddr}

/-- **The lookups of one packet**, if the update leaves one entry for a key. -/
theorem processPackAt_guarded
    (ht : KeyNodup (clockedUpdateAt srcIdx destIdx h.sp clk p srcHw recvIf s.rtbl)) :
    (processPackAt h res junk srcIdx destIdx io clk s p srcHw recvIf).Guarded h.ifInfoList := by
  rw [processPackAt]
  split
  · exact .unlooked (by simp)
  rw [packAt]
  rcases hty : p.type with _ | _ | _ | n
  · exact rreqAt_guarded (exists_findKey_rreq hty)
  · exact rrepAt_guarded ht (exists_findKey_rrep hty)
  · exact dataAt_guarded ht
  · exact .unlooked (by simp)

lemma processPackAt_junk (junk' : RtblRead) :
    processPackAt h res junk srcIdx destIdx io clk s p srcHw recvIf
      = processPackAt h res junk' srcIdx destIdx io clk s p srcHw recvIf := by
  rw [processPackAt, processPackAt, packAt, packAt]
  rcases hty : p.type with _ | _ | _ | n
  · simp only [rreqAt_junk (exists_findKey_rreq hty) junk']
  · simp only [rrepAt_junk junk']
  · rfl
  · rfl

end Lookups

/-- **Guarded lookups never miss.** Whatever calls of `update_rtbl_entry` have built the table
from the empty one, and whatever packet arrives at whatever times, every lookup but that of the
time server's answer finds its entry in the table that the update leaves: `get_rtbl_entry`
returns from its loop with this entry, whatever its output arguments held.  What they held has
no effect on the outcome, and every frame is flooded or leaves along an entry that was found. -/
theorem guarded_lookups_hit (rs : Resolver) (h : Host) (res : ℕ → ℤ) (io : UnixIo)
    (cs : List UpdateCall) (clk : ℕ → ℤ) (s : Node) (p : OdrPack) (srcHw : HwAddr) (recvIf : ℤ)
    (junk : RtblRead) :
    let tr := fun junk => processPackAt h res junk (srcKey rs p) (destKey rs p) io clk
      { s with rtbl := tableOf rs h.sp cs } p srcHw recvIf
    (∀ l ∈ (tr junk).lookups, l.site ≠ .dataTurn →
      ∃ e, l.entry = some e ∧ ∀ junk', getRtblEntryInto l.key (tr junk).out.node.rtbl junk'
        = ⟨1, e.nextHopHwaddr, e.ifNo, e.hop⟩) ∧
    (∀ junk', tr junk' = tr junk) ∧
    ∀ f ∈ (tr junk).out.sent, Flooded h.ifInfoList f ∨
      ∃ l ∈ (tr junk).lookups, ∃ e, l.entry = some e ∧ Follows h.ifInfoList e f := by
  intro tr
  -- the table after this packet is built by one more call
  have ht := (sound_tableOf rs h.sp (cs ++ [⟨clk, p, srcHw, recvIf⟩])).nodup
  rw [tableOf, List.foldl_append] at ht
  have hg : (tr junk).Guarded h.ifInfoList := processPackAt_guarded ht
  refine ⟨fun l hl hsite => ?_, fun junk' => processPackAt_junk junk, hg.sent⟩
  obtain ⟨e, he⟩ := hg.hits l hl hsite
  exact ⟨e, he, getRtblEntryInto_of_some ((hg.entry l hl).symm.trans he)⟩

end Odr
