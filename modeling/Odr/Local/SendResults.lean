/-
# What the senders return

`broadcast_ll_msg`, `send_ll_msg` and `send_payload` keep the result of one `sendto` in `ret` and
overwrite it with the next.  What they return therefore says how the last send went, and `1` if
there was none.

The sends of a call have consecutive numbers: they are those of the frames that the call adds to
the log.  A wrong result is one that hides what was left unsent behind a last send that succeeded,
or behind no send at all.
-/
import Odr.Network.Lab

namespace Odr

open Lab

/-- Some send with a number from `n` to `m - 1` fails. -/
def SomeFails (res : ℕ → ℤ) (n m : ℕ) : Prop := ∃ k < m, n ≤ k ∧ res k < 0

/-- There are sends with the numbers from `n` to `m - 1`, and the last of them fails. -/
def LastFails (res : ℕ → ℤ) (n m : ℕ) : Prop := n < m ∧ res (m - 1) < 0

instance (res : ℕ → ℤ) (n m : ℕ) : Decidable (SomeFails res n m) :=
  inferInstanceAs (Decidable (∃ k < m, n ≤ k ∧ res k < 0))

instance (res : ℕ → ℤ) (n m : ℕ) : Decidable (LastFails res n m) :=
  inferInstanceAs (Decidable (_ ∧ _))

/-- A result tells whether something was left unsent. -/
def Truthful (ret : ℤ) (unsent : Prop) : Prop := (ret = -1 ↔ unsent) ∧ (ret = 1 ↔ ¬unsent)

instance (ret : ℤ) (unsent : Prop) [Decidable unsent] : Decidable (Truthful ret unsent) :=
  inferInstanceAs (Decidable (_ ∧ _))

section

variable (res : ℕ → ℤ) (ifs : List IfInfo) (packet : OdrPack) (log : List Frame)

/-- A frame that `broadcast_ll_msg` was asked to send was not handed over. -/
def BroadcastUnsent (recvIf : ℤ) : Prop :=
  SomeFails res log.length (log ++ bcastFrames ifs packet recvIf).length

/-- The frame that `send_ll_msg` was asked to send was not handed over: no interface has the
index, or a send failed. -/
def LlUnsent (hw : HwAddr) (ifNo : ℤ) : Prop :=
  (∀ i ∈ ifs, i.sllIfindex ≠ ifNo) ∨
    SomeFails res log.length (log ++ llFrames ifs packet hw ifNo).length

/-- A frame that `send_payload` was asked to send was not handed over: no entry has the key, or
an entry with the key names an interface that is not listed, or a send failed. -/
def PayloadUnsent (t : Rtbl) (key : ℤ) : Prop :=
  (∀ e ∈ t, e.key ≠ key) ∨
    (∃ e ∈ t, e.key = key ∧ ∀ i ∈ ifs, i.sllIfindex ≠ e.ifNo) ∨
    SomeFails res log.length (log ++ payloadFrames ifs t packet key).length

instance (recvIf : ℤ) : Decidable (BroadcastUnsent res ifs packet log recvIf) :=
  inferInstanceAs (Decidable (SomeFails ..))

instance (hw : HwAddr) (ifNo : ℤ) : Decidable (LlUnsent res ifs packet log hw ifNo) :=
  inferInstanceAs (Decidable (_ ∨ _))

instance (t : Rtbl) (key : ℤ) : Decidable (PayloadUnsent res ifs packet log t key) :=
  inferInstanceAs (Decidable (_ ∨ _ ∨ _))

end

variable {res : ℕ → ℤ} {ifs : List IfInfo} {packet : OdrPack}

lemma LastFails.someFails {n m : ℕ} (h : LastFails res n m) : SomeFails res n m := by
  obtain ⟨hlt, hres⟩ := h
  exact ⟨m - 1, by omega, by omega, hres⟩

/-! ## The last result -/

/-- The loop ends with the result of the last send, or with the one it started with. -/
lemma sendLoop_snd (test : IfInfo → Bool) (mk : IfInfo → Frame) (log : List Frame) (ret : ℤ) :
    (sendLoop res test mk ifs log ret).2 =
      if ifs.filter test = [] then ret else res (log.length + (ifs.filter test).length - 1) := by
  induction ifs generalizing log ret with
  | nil => rfl
  | cons i ifs ih =>
    rw [sendLoop]
    by_cases hi : test i
    · rw [if_pos hi, ih, List.filter_cons_of_pos hi, if_neg (List.cons_ne_nil _ _)]
      split
      · next hnil => simp [hnil]
      · simp only [List.length_append, List.length_cons, List.length_nil]
        congr 1
        omega
    · rw [if_neg hi, ih, List.filter_cons_of_neg hi]

lemma okOrErr_snd (r : List Frame × ℤ) : (okOrErr r).2 = -1 ∨ (okOrErr r).2 = 1 := by
  rw [okOrErr]
  dsimp only
  split
  · exact Or.inr rfl
  · exact Or.inl rfl

lemma okOrErr_snd_eq (r : List Frame × ℤ) : (okOrErr r).2 = -1 ↔ r.2 < 0 := by
  rw [okOrErr]
  dsimp only
  split
  · omega
  · omega

lemma okOrErr_snd_neg (r : List Frame × ℤ) : (okOrErr r).2 < 0 ↔ (okOrErr r).2 = -1 := by
  rcases okOrErr_snd r with h | h
  · simp [h]
  · simp [h]

/-- A sender that loops over the interfaces from the result `0` fails with the last send. -/
lemma okOrErr_sendLoop (test : IfInfo → Bool) (mk : IfInfo → Frame) (log : List Frame) :
    (okOrErr (sendLoop res test mk ifs log 0)).2 = -1 ↔
      LastFails res log.length (log ++ (ifs.filter test).map mk).length := by
  rw [okOrErr_snd_eq, sendLoop_snd, LastFails, List.length_append, List.length_map]
  split
  · next hnil => simp [hnil]
  · next hne =>
    have hpos := List.length_pos_of_ne_nil hne
    constructor
    · exact fun h => ⟨by omega, h⟩
    · exact fun h => h.2

lemma broadcastLlMsg_snd (recvIf : ℤ) (log : List Frame) :
    (broadcastLlMsg res ifs packet recvIf log).2 = -1 ↔
      LastFails res log.length (log ++ bcastFrames ifs packet recvIf).length :=
  okOrErr_sendLoop _ _ log

lemma sendLlMsg_snd (hw : HwAddr) (ifNo : ℤ) (log : List Frame) :
    (sendLlMsg res ifs packet hw ifNo log).2 = -1 ↔
      LastFails res log.length (log ++ llFrames ifs packet hw ifNo).length :=
  okOrErr_sendLoop _ _ log

lemma payloadLoop_snoc (key : ℤ) (t : Rtbl) (e : RtblEntry) (log : List Frame) (ret : ℤ) :
    payloadLoop res ifs packet key (t ++ [e]) log ret =
      if e.key = key then
        sendLlMsg res ifs packet e.nextHopHwaddr e.ifNo (payloadLoop res ifs packet key t log ret).1
      else payloadLoop res ifs packet key t log ret := by
  induction t generalizing log ret with
  | nil => rfl
  | cons a t ih =>
    rw [List.cons_append, payloadLoop, payloadLoop]
    split
    · exact ih _ _
    · exact ih _ _

/-- The last entry with a key. -/
def lastKey (key : ℤ) (t : Rtbl) : Option RtblEntry := (t.filter fun e => e.key = key).getLast?

lemma payloadFrames_snoc (key : ℤ) (t : Rtbl) (e : RtblEntry) :
    payloadFrames ifs (t ++ [e]) packet key = payloadFrames ifs t packet key ++
      if e.key = key then llFrames ifs packet e.nextHopHwaddr e.ifNo else [] := by
  by_cases he : e.key = key
  · simp [payloadFrames, he]
  · simp [payloadFrames, he]

lemma lastKey_snoc (key : ℤ) (t : Rtbl) (e : RtblEntry) :
    lastKey key (t ++ [e]) = if e.key = key then some e else lastKey key t := by
  by_cases he : e.key = key
  · simp [lastKey, he]
  · simp [lastKey, he]

lemma llFrames_ne_nil (packet : OdrPack) (hw : HwAddr) {ifNo : ℤ} :
    llFrames ifs packet hw ifNo ≠ [] ↔ ∃ i ∈ ifs, i.sllIfindex = ifNo := by
  rw [← List.length_pos_iff, List.length_pos_iff_exists_mem]
  constructor
  · rintro ⟨f, hf⟩
    obtain ⟨i, hi, hidx, -⟩ := mem_llFrames.mp hf
    exact ⟨i, hi, hidx⟩
  · rintro ⟨i, hi, hidx⟩
    exact ⟨_, mem_llFrames.mpr ⟨i, hi, hidx, rfl⟩⟩

lemma sendPayload_snd (t : Rtbl) (key : ℤ) (log : List Frame) :
    (sendPayload res ifs t packet key log).2 = -1 ↔
      (∃ e ∈ lastKey key t, ∃ i ∈ ifs, i.sllIfindex = e.ifNo) ∧
        LastFails res log.length (log ++ payloadFrames ifs t packet key).length := by
  rw [sendPayload, okOrErr_snd_eq]
  induction t using List.reverseRecOn with
  | nil => simp [payloadLoop, lastKey]
  | append_singleton t e ih =>
    rw [payloadLoop_snoc, payloadFrames_snoc, lastKey_snoc]
    by_cases he : e.key = key
    · have hlog : (payloadLoop res ifs packet key t log 0).1
          = log ++ payloadFrames ifs t packet key := sendPayload_fst t key log
      have hlast : (sendLlMsg res ifs packet e.nextHopHwaddr e.ifNo
          (log ++ payloadFrames ifs t packet key)).2 = -1 ↔ _ := sendLlMsg_snd _ _ _
      rw [if_pos he, if_pos he, if_pos he, hlog, ← List.append_assoc]
      rw [sendLlMsg, okOrErr_snd_neg, ← sendLlMsg, hlast]
      -- the last entry makes the last send, if it makes one
      simp only [Option.mem_def, Option.some.injEq, exists_eq_left',
        ← llFrames_ne_nil packet e.nextHopHwaddr, LastFails, List.length_append]
      constructor
      · rintro ⟨hlt, hres⟩
        exact ⟨List.ne_nil_of_length_pos (by omega), by omega, hres⟩
      · rintro ⟨hne, hlt, hres⟩
        have hpos := List.length_pos_of_ne_nil hne
        exact ⟨by omega, hres⟩
    · rw [if_neg he, if_neg he, if_neg he, List.append_nil]
      exact ih

/-! ## When the results are right -/

/-- A result that is `-1` exactly if `F` tells the truth exactly if it fails whenever something
was left unsent. -/
lemma truthful_iff {ret : ℤ} {unsent F : Prop} (hret : ret = -1 ∨ ret = 1)
    (hF : ret = -1 ↔ F) (hunsent : F → unsent) : Truthful ret unsent ↔ (unsent → F) := by
  rw [Truthful]
  constructor
  · exact fun h hu => hF.mp (h.1.mpr hu)
  · intro h
    have hiff : ret = -1 ↔ unsent := hF.trans ⟨hunsent, h⟩
    refine ⟨hiff, ?_⟩
    rw [← hiff]
    omega

lemma llUnsent_imp_iff {F S : Prop} {ifNo : ℤ} (hF : F → ∃ i ∈ ifs, i.sllIfindex = ifNo) :
    ((∀ i ∈ ifs, i.sllIfindex ≠ ifNo) ∨ S → F) ↔
      (∃ i ∈ ifs, i.sllIfindex = ifNo) ∧ (S → F) := by
  constructor
  · intro h
    refine ⟨?_, fun hS => h (Or.inr hS)⟩
    by_contra hnone
    exact hnone (hF (h (Or.inl fun i hi hidx => hnone ⟨i, hi, hidx⟩)))
  · rintro ⟨⟨i, hi, hidx⟩, hS⟩ (hnone | hs)
    · exact absurd hidx (hnone i hi)
    · exact hS hs

lemma mem_of_lastKey {key : ℤ} {t : Rtbl} {e : RtblEntry} (h : e ∈ lastKey key t) :
    e ∈ t ∧ e.key = key := by
  simpa using List.mem_of_getLast? h

lemma exists_lastKey {key : ℤ} {t : Rtbl} {e : RtblEntry} (he : e ∈ t) (hk : e.key = key) :
    ∃ e', e' ∈ lastKey key t := by
  have hmem : e ∈ t.filter fun e => e.key = key := by simp [he, hk]
  rw [lastKey, List.getLast?_eq_some_getLast (List.ne_nil_of_mem hmem)]
  exact ⟨_, rfl⟩

/-- The condition for `send_payload`: every entry with the key sends and nothing fails, or the
last entry with the key sends and its last send fails. -/
lemma payloadUnsent_imp_iff {t : Rtbl} {key : ℤ} {log : List Frame} {F : Prop} :
    (PayloadUnsent res ifs packet log t key →
        (∃ e ∈ lastKey key t, ∃ i ∈ ifs, i.sllIfindex = e.ifNo) ∧ F) ↔
      (∃ e ∈ lastKey key t, ∃ i ∈ ifs, i.sllIfindex = e.ifNo) ∧
        (F ∨ (∀ e ∈ t, e.key = key → ∃ i ∈ ifs, i.sllIfindex = e.ifNo) ∧
          ¬SomeFails res log.length (log ++ payloadFrames ifs t packet key).length) := by
  constructor
  · intro h
    by_cases hu : PayloadUnsent res ifs packet log t key
    · exact ⟨(h hu).1, Or.inl (h hu).2⟩
    · rw [PayloadUnsent, not_or, not_or] at hu
      obtain ⟨hex, hlisted, hsent⟩ := hu
      have hlisted : ∀ e ∈ t, e.key = key → ∃ i ∈ ifs, i.sllIfindex = e.ifNo := by
        intro e he hk
        by_contra hnone
        exact hlisted ⟨e, he, hk, fun i hi hidx => hnone ⟨i, hi, hidx⟩⟩
      simp only [ne_eq, not_forall, not_not] at hex
      obtain ⟨e, he, hk⟩ := hex
      obtain ⟨e', he'⟩ := exists_lastKey he hk
      obtain ⟨hmem, hk'⟩ := mem_of_lastKey he'
      exact ⟨⟨e', he', hlisted e' hmem hk'⟩, Or.inr ⟨hlisted, hsent⟩⟩
  · rintro ⟨hlast, hF | ⟨hlisted, hsent⟩⟩ hu
    · exact ⟨hlast, hF⟩
    · exfalso
      rcases hu with hnone | ⟨e, he, hk, hnone⟩ | hfail
      · obtain ⟨e, he, -⟩ := hlast
        exact hnone e (mem_of_lastKey he).1 (mem_of_lastKey he).2
      · obtain ⟨i, hi, hidx⟩ := hlisted e he hk
        exact hnone i hi hidx
      · exact hsent hfail

/-- **When the senders tell the truth.** `broadcast_ll_msg` sends the packet once on every other
interface.  Its result is right if and only if no send fails or the last one does; the one of
`send_ll_msg`, if moreover an interface has the index.  The result of `send_payload` is right if
and only if the last entry with the key names a listed interface and either its last send fails,
or every entry with the key names a listed interface and no send fails. -/
theorem send_results_truthful_iff (res : ℕ → ℤ) (ifs : List IfInfo) (packet : OdrPack)
    (log : List Frame) (recvIf : ℤ) (hw : HwAddr) (ifNo : ℤ) (t : Rtbl) (key : ℤ) :
    (broadcastLlMsg res ifs packet recvIf log).1 = log ++
      (ifs.filter fun i => recvIf ≠ i.sllIfindex).map
        (fun i => ⟨broadcastAddr, i.sllAddr, i.sllIfindex, packet⟩) ∧
    (Truthful (broadcastLlMsg res ifs packet recvIf log).2
        (BroadcastUnsent res ifs packet log recvIf) ↔
      (SomeFails res log.length (log ++ bcastFrames ifs packet recvIf).length →
        LastFails res log.length (log ++ bcastFrames ifs packet recvIf).length)) ∧
    (Truthful (sendLlMsg res ifs packet hw ifNo log).2 (LlUnsent res ifs packet log hw ifNo) ↔
      (∃ i ∈ ifs, i.sllIfindex = ifNo) ∧
        (SomeFails res log.length (log ++ llFrames ifs packet hw ifNo).length →
          LastFails res log.length (log ++ llFrames ifs packet hw ifNo).length)) ∧
    (Truthful (sendPayload res ifs t packet key log).2 (PayloadUnsent res ifs packet log t key) ↔
      (∃ e ∈ lastKey key t, ∃ i ∈ ifs, i.sllIfindex = e.ifNo) ∧
        (LastFails res log.length (log ++ payloadFrames ifs t packet key).length ∨
          (∀ e ∈ t, e.key = key → ∃ i ∈ ifs, i.sllIfindex = e.ifNo) ∧
            ¬SomeFails res log.length (log ++ payloadFrames ifs t packet key).length)) := by
  refine ⟨broadcastLlMsg_fst recvIf log, ?_, ?_, ?_⟩
  · exact truthful_iff (okOrErr_snd _) (broadcastLlMsg_snd recvIf log) LastFails.someFails
  · have htruth : Truthful (sendLlMsg res ifs packet hw ifNo log).2
        (LlUnsent res ifs packet log hw ifNo) ↔ _ :=
      truthful_iff (okOrErr_snd _) (sendLlMsg_snd hw ifNo log) fun h => Or.inr h.someFails
    refine htruth.trans (llUnsent_imp_iff fun hlast => ?_)
    rw [← llFrames_ne_nil packet hw]
    refine List.ne_nil_of_length_pos ?_
    have hlt := hlast.1
    rw [List.length_append] at hlt
    omega
  · have htruth : Truthful (sendPayload res ifs t packet key log).2
        (PayloadUnsent res ifs packet log t key) ↔ _ :=
      truthful_iff (okOrErr_snd _) (sendPayload_snd t key log)
        fun h => Or.inr (Or.inr h.2.someFails)
    exact htruth.trans payloadUnsent_imp_iff

/-- The first of two sends fails and the second one succeeds. -/
def firstFails (k : ℕ) : ℤ := if k = 0 then -1 else 1

/-- A failure on the first interface is hidden by the second; a missing interface and a missing
entry are not reported either. -/
theorem send_results_untruthful :
    ¬Truthful (broadcastLlMsg firstFails [⟨1, 1⟩, ⟨2, 2⟩] blankPack 3 []).2
        (BroadcastUnsent firstFails [⟨1, 1⟩, ⟨2, 2⟩] blankPack [] 3) ∧
      ¬Truthful (sendLlMsg firstFails [⟨1, 1⟩, ⟨2, 2⟩] blankPack 7 3 []).2
        (LlUnsent firstFails [⟨1, 1⟩, ⟨2, 2⟩] blankPack [] 7 3) ∧
      ¬Truthful (sendPayload firstFails [⟨1, 1⟩, ⟨2, 2⟩] [] blankPack 1 []).2
        (PayloadUnsent firstFails [⟨1, 1⟩, ⟨2, 2⟩] blankPack [] [] 1) := by
  decide

end Odr
