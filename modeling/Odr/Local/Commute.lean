/-
# Independent discoveries

Two RREQs or RREPs between different nodes do not interfere: the update of one changes the table
under a key that the other does not look at, each marks the record of its own source, and only an
RREP whose source is the host itself reads `route_discovered`, which cannot be both.  So they may
be handled in either order.
-/
import Odr.Local.Consulted
import Odr.Network.Origination
import Odr.Table.Minimum

namespace Odr

open Lab

/-! ## The update under one key -/

/-- The entries with a key. -/
def entriesWith (key : ℤ) (t : Rtbl) : Rtbl := t.filter fun e => e.key = key

lemma findKey_entriesWith (key : ℤ) (t : Rtbl) :
    findKey key (entriesWith key t) = findKey key t := by
  rw [findKey, findKey, entriesWith, List.find?_filter]
  congr 1
  funext e
  simp

lemma entryExistsForSrc_entriesWith (key : ℤ) (t : Rtbl) :
    entryExistsForSrc key (entriesWith key t) = entryExistsForSrc key t :=
  entryExistsForSrc_congr (findKey_entriesWith key t)

/-- In a table with one entry for a key, the entry found determines the entries with the key. -/
lemma entriesWith_congr {key : ℤ} {t t' : Rtbl} (ht : KeyNodup t) (ht' : KeyNodup t')
    (h : findKey key t = findKey key t') : entriesWith key t = entriesWith key t' := by
  rcases he : findKey key t' with _ | e
  · have hnil : ∀ {t : Rtbl}, findKey key t = none → entriesWith key t = [] := by
      intro t hnone
      rw [entriesWith, List.filter_eq_nil_iff]
      simpa using findKey_eq_none.mp hnone
    rw [hnil he, hnil (h.trans he)]
  · rw [entriesWith, entriesWith, filter_key_of_findKey ht' he,
      filter_key_of_findKey ht (h.trans he)]

/-- The loop works on the entries with the offer's key as if there were no others. -/
lemma updateLoop_entriesWith (sp : ℤ) (o : Offer) (t : Rtbl) :
    updateLoop sp o (entriesWith o.key t) =
      (entriesWith o.key (updateLoop sp o t).1, (updateLoop sp o t).2) := by
  induction t with
  | nil => rfl
  | cons e t ih =>
    rw [entriesWith] at ih ⊢
    by_cases hk : e.key = o.key
    · rw [List.filter_cons_of_pos (by simpa using hk), updateLoop, updateLoop, if_pos hk, if_pos hk]
      split
      · simp [entriesWith]
      · rw [ih]
        simp [entriesWith, hk]
    · rw [List.filter_cons_of_neg (by simpa using hk), ih, updateLoop, if_neg hk]
      simp [entriesWith, hk]

lemma updateOrAdd_entriesWith (sp : ℤ) (o : Offer) {added : RtblEntry} (hadd : added.key = o.key)
    (t : Rtbl) :
    updateOrAdd sp o added (entriesWith o.key t) =
      (entriesWith o.key (updateOrAdd sp o added t).1, (updateOrAdd sp o added t).2) := by
  rw [updateOrAdd, updateOrAdd, entryExistsForSrc_entriesWith]
  split
  · exact updateLoop_entriesWith sp o t
  · simp [entriesWith, hadd]

section Update

variable {rs : Resolver} {sp now : ℤ} {p : OdrPack} {nextHop : HwAddr} {ifIdx : ℤ} {o : Offer}
  {t t' : Rtbl}

/-- So does `update_rtbl_entry` for an RREQ or an RREP. -/
lemma updateRtblEntry_entriesWith (ho : offer rs now p nextHop ifIdx = some o)
    (hty : p.type ≠ .data) :
    updateRtblEntry rs sp now p nextHop ifIdx (entriesWith o.key t) =
      entriesWith o.key (updateRtblEntry rs sp now p nextHop ifIdx t) := by
  rw [offer] at ho
  rw [updateRtblEntry, updateRtblEntry]
  rcases ht : p.type with _ | _ | _ | n
  · simp only [ht, Option.some.injEq] at ho
    subst ho
    simp only
    rw [updateOrAdd_entriesWith sp _ rfl]
    split
    · rfl
    split
    · rw [updateOrAdd_entriesWith sp _ rfl]
    · rfl
  · simp only [ht, Option.some.injEq] at ho
    subst ho
    simp only
    rw [updateOrAdd_entriesWith sp _ rfl]
  · exact absurd ht hty
  · simp [ht] at ho

/-- What the update leaves under a key depends on what was there under it. -/
lemma findKey_updateRtblEntry_congr (hty : p.type ≠ .data) (ht : KeyNodup t) (ht' : KeyNodup t')
    {key : ℤ} (h : findKey key t = findKey key t') :
    findKey key (updateRtblEntry rs sp now p nextHop ifIdx t) =
      findKey key (updateRtblEntry rs sp now p nextHop ifIdx t') := by
  rcases ho : offer rs now p nextHop ifIdx with _ | o
  · rw [updateRtblEntry_of_offer_none sp ho, updateRtblEntry_of_offer_none sp ho, h]
  by_cases hk : key = o.key
  · subst hk
    rw [← findKey_entriesWith, ← updateRtblEntry_entriesWith ho hty, entriesWith_congr ht ht' h,
      updateRtblEntry_entriesWith ho hty, findKey_entriesWith]
  · rw [findKey_updateRtblEntry_ne sp ho hk, findKey_updateRtblEntry_ne sp ho hk, h]

end Update

/-! ## What a packet reads and writes -/

section Effects

variable {rs : Resolver} {h : Host} {res : ℕ → ℤ} {io : UnixIo} {now : ℤ} {s s' : Node}
  {p : OdrPack} {srcHw : HwAddr} {recvIf : ℤ} {fr : List Frame} {ux : List UnixSend}

lemma Handled.forcedDiscovery (H : Handled rs h io now s p srcHw recvIf s' fr ux) :
    s'.forcedDiscovery = s.forcedDiscovery := by
  cases H <;> rfl

lemma Handled.msg (H : Handled rs h io now s p srcHw recvIf s' fr ux) : s'.msg = s.msg := by
  cases H <;> rfl

/-- Two states look the same to an RREQ or an RREP. -/
structure SameFor (rs : Resolver) (h : Host) (p : OdrPack) (s s' : Node) : Prop where
  nodup : KeyNodup s.rtbl
  nodup' : KeyNodup s'.rtbl
  src : findKey (srcKey rs p) s.rtbl = findKey (srcKey rs p) s'.rtbl
  dest : findKey (destKey rs p) s.rtbl = findKey (destKey rs p) s'.rtbl
  latest : s.latestRreq (srcKey rs p) = s'.latestRreq (srcKey rs p)
  forced : s.forcedDiscovery = s'.forcedDiscovery
  msg : s.msg = s'.msg
  discovered : p.type = .rrep → isSelfSrc h p.srcCanIpStr = 1 →
    s.routeDiscovered = s'.routeDiscovered

lemma consulted_src_or_dest {srcIdx destIdx key : ℤ} (hty : p.type ≠ .data)
    (hkey : consulted h srcIdx destIdx io s p = some key) : key = srcIdx ∨ key = destIdx := by
  rw [consulted] at hkey
  rcases ht : p.type with _ | _ | _ | n
  · simp only [ht] at hkey
    split_ifs at hkey
    · exact Or.inl (Option.some_injective _ hkey).symm
    · exact Or.inr (Option.some_injective _ hkey).symm
  · simp only [ht] at hkey
    split_ifs at hkey
    · exact Or.inr (Option.some_injective _ hkey).symm
    · exact Or.inl (Option.some_injective _ hkey).symm
  · exact absurd ht hty
  · simp [ht] at hkey

/-- Such states send the same frames, once their tables are updated. -/
lemma SameFor.sent_packAt (hsame : SameFor rs h p s s') (hty : p.type ≠ .data) (junk : RtblRead)
    (t : Rtbl) :
    (packAt h res junk (srcKey rs p) (destKey rs p) io t s p recvIf).out.sent =
      (packAt h res junk (srcKey rs p) (destKey rs p) io t s' p recvIf).out.sent := by
  simp only [packAt]
  rcases ht : p.type with _ | _ | _ | n
  · simp only [rreqAt, hsame.latest, hsame.forced]
    split
    · rfl
    split
    · split
      · rfl
      · rfl
    split
    · split
      · rfl
      split
      · rfl
      · rfl
    · rfl
  · simp only [rrepAt, hsame.msg]
    split
    · next hself =>
      rw [hsame.discovered ht hself]
      split
      · rfl
      · rfl
    split
    · rfl
    split
    · rfl
    · rfl
  · exact absurd ht hty
  · rfl

/-- **States that look the same to a packet send the same frames.** -/
theorem SameFor.sent (hsame : SameFor rs h p s s') (hty : p.type ≠ .data) :
    (processPack rs h res io now s p srcHw recvIf).sent =
      (processPack rs h res io now s' p srcHw recvIf).sent := by
  rw [← processPackAt_eq ⟨0, 0, 0, 0⟩, ← processPackAt_eq ⟨0, 0, 0, 0⟩, processPackAt,
    processPackAt]
  split
  · rfl
  rw [clockedUpdateAt_const, clockedUpdateAt_const]
  have hnodup : KeyNodup (updateRtblEntry rs h.sp now p srcHw recvIf s.rtbl) :=
    keyNodup_updateRtblEntry h.sp hsame.nodup
  have hnodup' : KeyNodup (updateRtblEntry rs h.sp now p srcHw recvIf s'.rtbl) :=
    keyNodup_updateRtblEntry h.sp hsame.nodup'
  have hagree : ∀ key ∈ consulted h (srcKey rs p) (destKey rs p) io s p,
      findKey key (updateRtblEntry rs h.sp now p srcHw recvIf s'.rtbl) =
        findKey key (updateRtblEntry rs h.sp now p srcHw recvIf s.rtbl) := by
    intro key hkey
    refine findKey_updateRtblEntry_congr hty hsame.nodup' hsame.nodup ?_
    rcases consulted_src_or_dest hty hkey with rfl | rfl
    · exact hsame.src.symm
    · exact hsame.dest.symm
  rw [packAt_congr hnodup' hnodup hagree, Traced.withRtbl]
  exact hsame.sent_packAt hty _ _

/-! ## Two packets -/

/-- The keys of a packet's two addresses. -/
def OdrPack.keys (rs : Resolver) (p : OdrPack) : Finset ℤ := {srcKey rs p, destKey rs p}

lemma offer_key_mem {o : Offer} (ho : offer rs now p srcHw recvIf = some o) :
    o.key ∈ p.keys rs := by
  have hsrc : srcKey rs p ∈ p.keys rs := Finset.mem_insert_self _ _
  have hdest : destKey rs p ∈ p.keys rs :=
    Finset.mem_insert_of_mem (Finset.mem_singleton_self _)
  rw [offer] at ho
  rcases hty : p.type with _ | _ | _ | n
  · simp only [hty, Option.some.injEq] at ho
    exact ho ▸ hsrc
  · simp only [hty, Option.some.injEq] at ho
    exact ho ▸ hdest
  · simp only [hty] at ho
    split_ifs at ho
    · exact Option.some_injective _ ho ▸ hsrc
    · exact Option.some_injective _ ho ▸ hdest
  · simp [hty] at ho

lemma Handled.keyNodup (H : Handled rs h io now s p srcHw recvIf s' fr ux)
    (hs : KeyNodup s.rtbl) : KeyNodup s'.rtbl := by
  rw [H.rtbl]
  split
  · exact keyNodup_updateRtblEntry _ hs
  · exact hs

/-- Handling a packet leaves the entries under other keys as they are. -/
lemma Handled.findKey_of_notMem (H : Handled rs h io now s p srcHw recvIf s' fr ux) {key : ℤ}
    (hkey : key ∉ p.keys rs) : findKey key s'.rtbl = findKey key s.rtbl := by
  rw [H.rtbl]
  split
  · rcases ho : offer rs now p srcHw recvIf with _ | o
    · rw [Node.learn, updateRtblEntry_of_offer_none _ ho]
    · exact findKey_updateRtblEntry_ne _ ho fun heq => hkey (heq ▸ offer_key_mem ho)
  · rfl

/-- What handling a packet leaves under a key depends on what was there under it. -/
lemma Handled.findKey_congr {s₁ s₂ : Node} {fr' : List Frame} {ux' : List UnixSend}
    (H₁ : Handled rs h io now s p srcHw recvIf s₁ fr ux)
    (H₂ : Handled rs h io now s' p srcHw recvIf s₂ fr' ux') (hty : p.type ≠ .data)
    (hs : KeyNodup s.rtbl) (hs' : KeyNodup s'.rtbl) {key : ℤ}
    (heq : findKey key s.rtbl = findKey key s'.rtbl) :
    findKey key s₁.rtbl = findKey key s₂.rtbl := by
  rw [H₁.rtbl, H₂.rtbl]
  split
  · exact findKey_updateRtblEntry_congr hty hs hs' heq
  · exact heq

lemma eq_of_isSelfSrc {ip : CanIp} (hself : isSelfSrc h ip = 1) : h.selfIpStr = ip := by
  rw [isSelfSrc, isSelfDest] at hself
  split at hself
  · split at hself
    · assumption
    · simp at hself
  · simp at hself

/-- A node that has handled a packet with other keys looks the same to an RREQ or an RREP. -/
lemma Handled.sameFor (H : Handled rs h io now s p srcHw recvIf s' fr ux)
    (hs : KeyNodup s.rtbl) {q : OdrPack} (hpq : Disjoint (p.keys rs) (q.keys rs)) :
    SameFor rs h q s s' := by
  have hnot : ∀ key ∈ q.keys rs, key ∉ p.keys rs :=
    fun key hq hp => Finset.disjoint_left.mp hpq hp hq
  have hsrc : srcKey rs q ∉ p.keys rs := hnot _ (Finset.mem_insert_self _ _)
  have hdest : destKey rs q ∉ p.keys rs :=
    hnot _ (Finset.mem_insert_of_mem (Finset.mem_singleton_self _))
  have hne : srcKey rs q ≠ srcKey rs p :=
    fun heq => hsrc (heq ▸ Finset.mem_insert_self _ _)
  refine ⟨hs, H.keyNodup hs, (H.findKey_of_notMem hsrc).symm, (H.findKey_of_notMem hdest).symm,
    ?_, H.forcedDiscovery.symm, H.msg.symm, fun hty hself => ?_⟩
  · rw [H.latestRreq]
    split
    · rw [Function.update_of_ne hne]
    · rfl
  · rw [H.routeDiscovered, if_neg]
    rintro ⟨-, -, hself', -⟩
    -- both would come from this host, and so from one address
    rw [srcKey, srcKey, ← eq_of_isSelfSrc hself, ← eq_of_isSelfSrc hself'] at hne
    exact hne rfl

end Effects

/-- **Independent discoveries commute.** In a table with one entry for a key, two RREQs or RREPs
with disjoint keys leave the same entry under every key, the same `latest_rreq` and the same
`route_discovered` in either order, and send the same frames. -/
theorem independent_discoveries_commute (rs : Resolver) (h : Host) (res : ℕ → ℤ)
    (io : UnixIo) (now : ℤ) (s : Node) (p q : OdrPack) (pHw qHw : HwAddr) (pIf qIf : ℤ)
    (hs : KeyNodup s.rtbl) (hp : p.type = .rreq ∨ p.type = .rrep)
    (hq : q.type = .rreq ∨ q.type = .rrep) (hpq : Disjoint (p.keys rs) (q.keys rs)) :
    let first := processPack rs h res io now s p pHw pIf
    let first' := processPack rs h res io now s q qHw qIf
    let second := processPack rs h res io now first.node q qHw qIf
    let second' := processPack rs h res io now first'.node p pHw pIf
    (∀ key, findKey key second.node.rtbl = findKey key second'.node.rtbl) ∧
      second.node.latestRreq = second'.node.latestRreq ∧
      second.node.routeDiscovered = second'.node.routeDiscovered ∧
      (first.sent ++ second.sent).Perm (first'.sent ++ second'.sent) := by
  intro first first' second second'
  have hp : p.type ≠ .data := by rcases hp with hp | hp <;> simp [hp]
  have hq : q.type ≠ .data := by rcases hq with hq | hq <;> simp [hq]
  have H₁ : Handled rs h io now s p pHw pIf first.node first.sent first.unix :=
    processPack_handled
  have H₁' : Handled rs h io now s q qHw qIf first'.node first'.sent first'.unix :=
    processPack_handled
  have H₂ : Handled rs h io now first.node q qHw qIf second.node second.sent second.unix :=
    processPack_handled
  have H₂' : Handled rs h io now first'.node p pHw pIf second'.node second'.sent second'.unix :=
    processPack_handled
  have hsame := H₁.sameFor hs hpq
  have hsame' := H₁'.sameFor hs hpq.symm
  refine ⟨fun key => ?_, ?_, ?_, ?_⟩
  · by_cases hkey : key ∈ p.keys rs
    · have hkey' : key ∉ q.keys rs := Finset.disjoint_left.mp hpq hkey
      rw [H₂.findKey_of_notMem hkey']
      exact H₁.findKey_congr H₂' hp hs hsame'.nodup' (H₁'.findKey_of_notMem hkey').symm
    · rw [H₂'.findKey_of_notMem hkey]
      exact H₂.findKey_congr H₁' hq hsame.nodup' hs (H₁.findKey_of_notMem hkey)
  · have hne : srcKey rs p ≠ srcKey rs q := fun heq =>
      Finset.disjoint_left.mp hpq (Finset.mem_insert_self _ _)
        (heq ▸ Finset.mem_insert_self _ _)
    rw [H₂.latestRreq, H₂'.latestRreq, ← hsame.latest, ← hsame'.latest, H₁.latestRreq,
      H₁'.latestRreq]
    split_ifs
    · exact Function.update_comm hne _ _ _
    · rfl
    · rfl
    · rfl
  · rw [H₂.routeDiscovered, H₂'.routeDiscovered, H₁.routeDiscovered, H₁'.routeDiscovered]
    by_cases hrd : s.routeDiscovered = 0
    · split_ifs <;> simp_all
    · simp [hrd]
  · have hsent : first'.sent = second.sent := hsame.sent hq
    have hsent' : first.sent = second'.sent := hsame'.sent hp
    rw [hsent, hsent']
    exact List.perm_append_comm

/-- An RREQ on its first link. -/
def rreqBetween (a b : ℕ) : OdrPack :=
  { blankPack with
    type := .rreq
    srcCanIpStr := ip a
    destCanIpStr := ip b
    rreq := ⟨1, 1, 0, 0⟩ }

/-- A relay with two interfaces that has just started. -/
def relayHost : Host := ⟨[iface 1, iface 2], true, ip 4, ip 4, 5⟩

/-- What the relay does with an RREQ. -/
def relays (s : Node) (a b : ℕ) : Outcome :=
  processPack resolver relayHost (fun _ => 1) (answering []) 0 s (rreqBetween a b) 7 1

theorem independent_discoveries_relay :
    (∀ key, findKey key (relays (relays freshNode 0 1).node 2 3).node.rtbl =
        findKey key (relays (relays freshNode 2 3).node 0 1).node.rtbl) ∧
      ((relays freshNode 0 1).sent ++ (relays (relays freshNode 0 1).node 2 3).sent).Perm
        ((relays freshNode 2 3).sent ++ (relays (relays freshNode 2 3).node 0 1).sent) := by
  have h := independent_discoveries_commute resolver relayHost (fun _ => 1) (answering []) 0
    freshNode (rreqBetween 0 1) (rreqBetween 2 3) 7 7 1 1 List.nodup_nil (Or.inl rfl) (Or.inl rfl)
    (by decide)
  exact ⟨h.1, h.2.2.2⟩

end Odr
