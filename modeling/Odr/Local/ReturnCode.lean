/-
# What stops the daemon

`main` ends when `process_pack` returns `-1`.  One variable `ret` holds in turn the result of an
identity test, of a lookup, of a send on the link layer and of a send on the Unix socket, and its
last value is returned.

As long as the host knows its name and the link layer takes every frame, one value is left that
ends the daemon: the result of the `sendto` that hands an answer to the local client.  A server
that is not there, or does not answer, does no harm.
-/
import Odr.Local.SendResults
import Odr.Network.DataDirection

namespace Odr

open Lab

variable {rs : Resolver} {h : Host} {res : ℕ → ℤ} {io : UnixIo} {now : ℤ} {s : Node}
  {p : OdrPack} {srcHw : HwAddr} {recvIf : ℤ}

/-! ## Sends that succeed -/

section Sends

variable {ifs : List IfInfo} {packet : OdrPack}

lemma not_lastFails (hres : ∀ k, 0 ≤ res k) (n m : ℕ) : ¬LastFails res n m :=
  fun hlast => absurd (hres (m - 1)) (not_le.mpr hlast.2)

lemma broadcastLlMsg_ne (hres : ∀ k, 0 ≤ res k) (r : ℤ) (log : List Frame) :
    (broadcastLlMsg res ifs packet r log).2 ≠ -1 := by
  rw [Ne, broadcastLlMsg_snd]
  exact not_lastFails hres _ _

lemma sendLlMsg_ne (hres : ∀ k, 0 ≤ res k) (hw : HwAddr) (ifNo : ℤ) (log : List Frame) :
    (sendLlMsg res ifs packet hw ifNo log).2 ≠ -1 := by
  rw [Ne, sendLlMsg_snd]
  exact not_lastFails hres _ _

lemma sendPayload_ne (hres : ∀ k, 0 ≤ res k) (t : Rtbl) (key : ℤ) (log : List Frame) :
    (sendPayload res ifs t packet key log).2 ≠ -1 := by
  rw [Ne, sendPayload_snd]
  exact fun hlast => not_lastFails hres _ _ hlast.2

end Sends

/-! ## The three types of packets -/

lemma zero_ne_neg_one : (0 : ℤ) ≠ -1 := by decide

lemma one_ne_neg_one : (1 : ℤ) ≠ -1 := by decide

lemma isSelfDest_ne (hhost : h.hostnameOk = true) (ip : CanIp) : isSelfDest h ip ≠ -1 := by
  rw [isSelfDest, if_pos hhost]
  split
  · decide
  · decide

lemma isSelfSrc_ne_zero_iff (hhost : h.hostnameOk = true) (ip : CanIp) :
    isSelfSrc h ip ≠ 0 ↔ h.selfIpStr = ip := by
  rw [isSelfSrc, isSelfDest, if_pos hhost]
  split
  · next heq => simpa using heq
  · next hne => simpa using hne

lemma processRreq_ret (hhost : h.hostnameOk = true) (hres : ∀ k, 0 ≤ res k)
    (hty : p.type = .rreq) : (processRreq rs h res now s p srcHw recvIf).ret ≠ -1 := by
  dsimp only [processRreq]
  by_cases hsent : p.rreq.rrepSent = 1
  · rw [if_pos hsent]
    exact zero_ne_neg_one
  rw [if_neg hsent]
  by_cases hself : isSelfDest h p.destCanIpStr = 1
  · obtain ⟨e, he⟩ := exists_findKey_src rs h now s srcHw recvIf hty
    rw [if_pos hself, getRtblEntry_of_learn he]
    exact sendLlMsg_ne hres _ _ _
  rw [if_neg hself]
  by_cases hnew : (s.latestRreq (srcKey rs p)).toInt < p.rreq.broadcastId
  · rw [if_pos hnew]
    rcases he : findKey (destKey rs p) (s.learn rs h now p srcHw recvIf).rtbl with _ | e
    · rw [if_pos (Or.inl (entryExistsForSrc_of_not_learn he))]
      exact broadcastLlMsg_ne hres _ _
    by_cases hforced : s.forcedDiscovery = 1
    · rw [if_pos (Or.inr hforced)]
      exact broadcastLlMsg_ne hres _ _
    · rw [if_neg (not_or.mpr ⟨entryExistsForSrc_of_learn he, hforced⟩), getRtblEntry_of_learn he]
      exact broadcastLlMsg_ne hres _ _
  · rw [if_neg hnew]
    exact isSelfDest_ne hhost _

lemma processRrep_ret (hhost : h.hostnameOk = true) (hres : ∀ k, 0 ≤ res k) :
    (processRrep rs h res now s p srcHw recvIf).ret ≠ -1 := by
  dsimp only [processRrep]
  by_cases hself : isSelfSrc h p.srcCanIpStr = 1
  · rw [if_pos hself]
    split
    · exact sendPayload_ne hres _ _ _
    · exact isSelfDest_ne hhost _
  rw [if_neg hself]
  rcases he : findKey (srcKey rs p) (s.learn rs h now p srcHw recvIf).rtbl with _ | e
  · rw [if_pos (entryExistsForSrc_of_not_learn he)]
    exact isSelfDest_ne hhost _
  · rw [if_neg (entryExistsForSrc_of_learn he), getRtblEntry_of_learn he]
    exact sendLlMsg_ne hres _ _ _

/-- A DATA packet ends the daemon only where it is handed to the client. -/
lemma processData_ret (hhost : h.hostnameOk = true) (hres : ∀ k, 0 ≤ res k) :
    (processData rs h res io now s p srcHw recvIf).ret = -1 ↔
      h.selfIpStr = p.srcCanIpStr ∧ io.toClient = -1 := by
  rw [← isSelfSrc_ne_zero_iff hhost]
  dsimp only [processData]
  by_cases hsrc : isSelfSrc h p.srcCanIpStr ≠ 0
  · rw [if_pos hsrc]
    exact ⟨fun hret => ⟨hsrc, hret⟩, fun hret => hret.2⟩
  rw [if_neg hsrc]
  refine iff_of_false ?_ fun hret => hsrc hret.1
  split
  · rcases io.answer with _ | text
    · exact one_ne_neg_one
    · exact sendPayload_ne hres _ _ _
  split
  · split
    · exact zero_ne_neg_one
    · exact sendPayload_ne hres _ _ _
  split
  · split
    · exact zero_ne_neg_one
    · exact sendPayload_ne hres _ _ _
  · exact zero_ne_neg_one

/-- **What stops the daemon.** If `gethostname` and all sends on the link layer succeed, a packet
of a known type makes `process_pack` return `-1` if and only if it is DATA within `MAXH` whose
source is this host and the `sendto` to the client fails. -/
theorem process_pack_goes_on_iff (rs : Resolver) (h : Host) (res : ℕ → ℤ) (io : UnixIo)
    (now : ℤ) (s : Node) (p : OdrPack) (srcHw : HwAddr) (recvIf : ℤ)
    (hhost : h.hostnameOk = true) (hres : ∀ k, 0 ≤ res k) (hty : ∀ n, p.type ≠ .other n) :
    (processPack rs h res io now s p srcHw recvIf).ret ≠ -1 ↔
      ¬(p.WithinMaxh ∧ p.type = .data ∧ h.selfIpStr = p.srcCanIpStr ∧ io.toClient = -1) := by
  rw [not_iff_not, processPack]
  by_cases hop : p.WithinMaxh
  · rw [if_neg hop.not_over]
    rcases ht : p.type with _ | _ | _ | n
    · simpa using processRreq_ret hhost hres ht
    · simpa using processRrep_ret hhost hres
    · simpa [hop] using processData_ret hhost hres
    · exact absurd ht (hty n)
  · rw [if_pos (OdrPack.over_of_not hop)]
    exact iff_of_false one_ne_neg_one fun hret => hop hret.1

theorem process_pack_goes_on_delivered :
    (processPack resolver ⟨[], true, ip 0, ip 0, 5⟩ (fun _ => 1) (answering []) 0 freshNode
      { blankPack with type := .data, srcCanIpStr := ip 0 } 7 1).ret ≠ -1 := by
  rw [process_pack_goes_on_iff _ _ _ _ _ _ _ _ _ rfl (fun _ => by decide) (fun n => by simp)]
  decide

/-- The client has gone when the answer to its request arrives: the daemon of its node ends. -/
theorem client_gone_ends_daemon :
    ∃ σ, pair.system.Reach (fun _ _ => True) σ ∧ ∃ f ∈ σ.wire, f.pack.type = .data ∧
      (pair.receive σ f ⟨-1, 1, none⟩).ret = -1 :=
  ⟨after pair Network.pairAnswered, reach_after (by decide +kernel) fun _ _ => trivial,
    by decide +kernel⟩

end Odr
