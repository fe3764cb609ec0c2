/-
# Where the fields of an entry come from

An entry should describe one path: its next hop, its interface and its hop count should all be
taken from the packet that set the next hop last.  `lastSetter` is that packet, read off the
calls that built the table.

The blocks that insert an entry and those that improve one write the three fields together.  The
blocks that replace a stale entry do not: they keep the old hop count where it is smaller, and
compare with `rreq.hop` even when the packet is an RREP.  `Mixes` says that a call does this, and
the entries of all tables that occur are coherent exactly as long as no call does
(`coherent_iff`).
-/
import Odr.Table.Representation
import Odr.Network.Lab

namespace Odr

open Transition (System)
open Transition.System (Along lastOf lastOf_snoc)

/-! ## The loop with a running clock -/

/-- What the loop does to an entry with the offer's key, from the `i`-th reading on. -/
def clockedTouch (sp : ℤ) (o : Offer) (clk : ℕ → ℤ) (i : ℕ) (e : RtblEntry) : RtblEntry :=
  if clk i - e.ts > sp then e.replaceStale (o.at (clk (i + 1))) else e.improve (o.at (clk (i + 1)))

section Loop

variable {sp : ℤ} {o : Offer} {clk : ℕ → ℤ} {i : ℕ} {t : Rtbl} {e : RtblEntry}

lemma clockedTouch_route (sp : ℤ) (o : Offer) (clk : ℕ → ℤ) (i : ℕ) (e : RtblEntry) :
    (clockedTouch sp o clk i e).route =
      if clk i - e.ts > sp ∨ o.hop < e.hop then (o.nextHop, o.ifIdx) else e.route := by
  rw [clockedTouch]
  by_cases hst : clk i - e.ts > sp
  · rw [if_pos hst, if_pos (Or.inl hst)]
    rfl
  · rw [if_neg hst, RtblEntry.improve]
    by_cases hlt : o.hop < e.hop
    · rw [if_pos (Or.inr hlt), if_pos (show e.hop > (o.at (clk (i + 1))).hop from hlt)]
      rfl
    · rw [if_neg (not_or.mpr ⟨hst, hlt⟩), if_neg (show ¬e.hop > (o.at (clk (i + 1))).hop from hlt)]

lemma clockedTouch_hop (sp : ℤ) (o : Offer) (clk : ℕ → ℤ) (i : ℕ) (e : RtblEntry) :
    (clockedTouch sp o clk i e).hop =
      if clk i - e.ts > sp then min e.hop o.staleHop else min e.hop o.hop := by
  rw [clockedTouch]
  split
  · exact replaceStale_hop (o.at (clk (i + 1))) e
  · exact improve_hop (o.at (clk (i + 1))) e

lemma findKey_clockedLoop_ne {key : ℤ} (hne : key ≠ o.key) (t : Rtbl) :
    findKey key (clockedLoop sp o clk i t).1 = findKey key t := by
  induction t generalizing i with
  | nil => rfl
  | cons e t ih =>
    rw [clockedLoop]
    split
    · next h =>
      have he : e.key ≠ key := fun h' => hne (h' ▸ h)
      split
      · rw [findKey_cons, findKey_cons, if_neg he, replaceStale_key, Offer.at, if_neg (h ▸ he)]
      · simp only [findKey_cons, improve_key, if_neg he, ih]
    · simp only [findKey_cons, ih]

lemma findKey_clockedLoop_self (sp : ℤ) (o : Offer) (clk : ℕ → ℤ) (i : ℕ) (t : Rtbl) :
    findKey o.key (clockedLoop sp o clk i t).1
      = (findKey o.key t).map (clockedTouch sp o clk i) := by
  induction t with
  | nil => rfl
  | cons e t ih =>
    rw [clockedLoop]
    split
    · next h =>
      split
      · next hst => simp [findKey_cons, h, clockedTouch, hst, Offer.at]
      · next hst => simp [findKey_cons, h, clockedTouch, hst]
    · next h => simp [findKey_cons, h, ih]

lemma clockedLoop_of_missing (h : findKey o.key t = none) :
    clockedLoop sp o clk i t = (t, false, i) := by
  induction t with
  | nil => rfl
  | cons e t ih =>
    rw [findKey_cons] at h
    by_cases he : e.key = o.key
    · simp [he] at h
    · rw [if_neg he] at h
      rw [clockedLoop, if_neg he, ih h]

/-- The readings that the loop takes for the only entry with the key. -/
lemma clockedLoop_snd (sp : ℤ) (clk : ℕ → ℤ) (i : ℕ) (ht : KeyNodup t)
    (he : findKey o.key t = some e) :
    (clockedLoop sp o clk i t).2 =
      if clk i - e.ts > sp then (true, i + 2)
      else (false, if e.hop > o.hop then i + 2 else i + 1) := by
  induction t with
  | nil => simp [findKey_nil] at he
  | cons a t ih =>
    rw [KeyNodup, List.map_cons, List.nodup_cons] at ht
    rw [findKey_cons] at he
    rw [clockedLoop]
    by_cases hk : a.key = o.key
    · obtain rfl : a = e := by simpa [hk] using he
      have hnone : findKey o.key t = none := by
        rw [← hk, findKey, List.find?_eq_none]
        intro b hb hb'
        exact ht.1 (of_decide_eq_true hb' ▸ List.mem_map_of_mem hb)
      rw [if_pos hk]
      split
      · rfl
      · simp only [clockedLoop_of_missing hnone]
    · rw [if_neg hk] at he ⊢
      exact ih ht.2 he

lemma findKey_clockedOrAdd_ne {added : RtblEntry} {key : ℤ} (hadd : added.key = o.key)
    (hne : key ≠ o.key) (t : Rtbl) :
    findKey key (clockedOrAdd sp o added clk i t).1 = findKey key t := by
  rw [clockedOrAdd]
  split
  · exact findKey_clockedLoop_ne hne t
  · rw [findKey_append, if_neg (hadd ▸ hne.symm)]
    simp

lemma clockedOrAdd_of_findKey (added : RtblEntry) (he : findKey o.key t = some e) :
    clockedOrAdd sp o added clk i t = clockedLoop sp o clk i t := by
  rw [clockedOrAdd, if_pos (by rw [entryExistsForSrc_eq_one, he]; rfl)]

lemma clockedOrAdd_of_missing (added : RtblEntry) (he : findKey o.key t = none) :
    clockedOrAdd sp o added clk i t = (t ++ [{ added with ts := clk i }], false, i + 1) := by
  rw [clockedOrAdd, if_neg (by rw [entryExistsForSrc_eq_one, he]; simp)]

end Loop

/-! ## What a call does to the entry of a key -/

/-- The hop count that a packet names: `rrep.hop` for an RREP, `rreq.hop` for the others. -/
def OdrPack.hopCount (p : OdrPack) : ℤ := if p.type = .rrep then p.rrep.hop else p.rreq.hop

lemma offer_hops {rs : Resolver} {now : ℤ} {p : OdrPack} {nextHop : HwAddr} {ifIdx : ℤ} {o : Offer}
    (ho : offer rs now p nextHop ifIdx = some o) :
    o.hop = p.hopCount ∧ o.staleHop = p.rreq.hop := by
  rw [offer] at ho
  rw [OdrPack.hopCount]
  rcases hty : p.type with _ | _ | _ | n
  · simp only [hty, Option.some.injEq] at ho
    subst ho
    exact ⟨rfl, rfl⟩
  · simp only [hty, Option.some.injEq] at ho
    subst ho
    exact ⟨rfl, rfl⟩
  · simp only [hty] at ho
    split at ho
    · obtain rfl := Option.some_injective _ ho
      exact ⟨rfl, rfl⟩
    split at ho
    · obtain rfl := Option.some_injective _ ho
      exact ⟨rfl, rfl⟩
    · simp at ho
  · simp [hty] at ho

namespace UpdateCall

variable (rs : Resolver) (sp : ℤ) (t : Rtbl) (c : UpdateCall)

/-- The offer that the call makes to the table. -/
def offer : Option Offer := Odr.offer rs (c.clock 0) c.pack c.nextHop c.ifIdx

/-- The call finds the entry stale, by the first reading of the clock or, for an RREQ with
`rrep_sent`, by the one that follows. -/
def Outdates (e : RtblEntry) : Prop :=
  c.clock 0 - e.ts > sp ∨
    (c.pack.type = .rreq ∧ c.pack.rreq.rrepSent = 1 ∧ c.clock 1 - e.ts > sp)

instance (e : RtblEntry) : Decidable (c.Outdates sp e) := inferInstanceAs (Decidable (_ ∨ _))

/-- The call sets the next hop under a key: it makes an offer for it, and the entry is missing
(and the packet is not DATA), stale, or takes more hops. -/
def sets (key : ℤ) : Bool :=
  decide ((c.offer rs).map Offer.key = some key) &&
    match findKey key t with
    | none => decide (c.pack.type ≠ .data)
    | some e => decide (c.Outdates sp e ∨ c.pack.hopCount < e.hop)

variable {rs sp t c} {o : Offer} {e : RtblEntry}

lemma run_of_offer_none (ho : c.offer rs = none) : c.run rs sp t = t := by
  rw [offer, Odr.offer] at ho
  rw [run, clockedUpdate]
  rcases hty : c.pack.type with _ | _ | _ | n
  · simp [hty] at ho
  · simp [hty] at ho
  · simp only [hty] at ho
    split at ho
    · simp at ho
    · next h₁ =>
      split at ho
      · simp at ho
      · next h₂ => simp [h₁, h₂]
  · rfl

/-- The ways in which a call that makes an offer treats the table. -/
lemma run_cases (sp : ℤ) (t : Rtbl) (ho : c.offer rs = some o) :
    (c.pack.type ≠ .data ∧ ¬(c.pack.type = .rreq ∧ c.pack.rreq.rrepSent = 1) ∧
      c.run rs sp t = (clockedOrAdd sp o o.entry c.clock 0 t).1) ∨
    ((c.pack.type = .rreq ∧ c.pack.rreq.rrepSent = 1) ∧ ∃ added : RtblEntry, added.key = o.key ∧
      c.run rs sp t = let r := clockedOrAdd sp o o.entry c.clock 0 t
        if r.2.1 then r.1 else (clockedOrAdd sp o added c.clock r.2.2 r.1).1) ∨
    (c.pack.type = .data ∧ c.run rs sp t = (clockedLoop sp o c.clock 0 t).1) := by
  rw [offer, Odr.offer] at ho
  rw [run, clockedUpdate]
  rcases hty : c.pack.type with _ | _ | _ | n
  · simp only [hty, Option.some.injEq] at ho
    subst ho
    by_cases hsent : c.pack.rreq.rrepSent = 1
    · exact Or.inr (Or.inl ⟨⟨rfl, hsent⟩, _, rfl, by simp only [if_pos hsent]; rfl⟩)
    · exact Or.inl ⟨by simp, fun h => hsent h.2, by simp only [if_neg hsent, ite_self]⟩
  · simp only [hty, Option.some.injEq] at ho
    subst ho
    exact Or.inl ⟨by simp, by simp, rfl⟩
  · refine Or.inr (Or.inr ⟨rfl, ?_⟩)
    simp only [hty] at ho
    -- the existence tests only skip loops that would find nothing
    split at ho
    · next h₁ =>
      obtain rfl := Option.some_injective _ ho
      by_cases hex : entryExistsForSrc (srcOffer rs (c.clock 0) c.pack c.nextHop c.ifIdx
          c.pack.rreq.hop c.pack.rreq.hop).key t = 1
      · simp [h₁, hex]
      · simp [h₁, hex, clockedLoop_of_missing (entryExistsForSrc_ne_one.mp hex)]
    · next h₁ =>
      split at ho
      · next h₂ =>
        obtain rfl := Option.some_injective _ ho
        by_cases hex : entryExistsForSrc (destOffer rs (c.clock 0) c.pack c.nextHop c.ifIdx
            c.pack.rreq.hop c.pack.rreq.hop).key t = 1
        · simp [h₂, hex]
        · simp [h₂, hex, clockedLoop_of_missing (entryExistsForSrc_ne_one.mp hex)]
      · simp at ho
  · simp [hty] at ho

lemma findKey_run_ne (ho : c.offer rs = some o) {key : ℤ} (hne : key ≠ o.key) :
    findKey key (c.run rs sp t) = findKey key t := by
  rcases run_cases sp t ho with ⟨-, -, h⟩ | ⟨-, added, hadd, h⟩ | ⟨-, h⟩
  · rw [h, findKey_clockedOrAdd_ne rfl hne]
  · rw [h]
    dsimp only
    split
    · rw [findKey_clockedOrAdd_ne rfl hne]
    · rw [findKey_clockedOrAdd_ne hadd hne, findKey_clockedOrAdd_ne rfl hne]
  · rw [h, findKey_clockedLoop_ne hne]

/-- An entry that describes the path of the packet still does after another pass. -/
lemma clockedTouch_settled {clk : ℕ → ℤ} {i : ℕ} (hh : o.staleHop = o.hop)
    (hr : e.route = (o.nextHop, o.ifIdx)) (he : e.hop = o.hop) :
    (clockedTouch sp o clk i e).route = (o.nextHop, o.ifIdx) ∧
      (clockedTouch sp o clk i e).hop = o.hop := by
  rw [clockedTouch_route, clockedTouch_hop, hh, he, hr]
  simp

/-- A missing entry is added by an RREQ and by an RREP. -/
lemma findKey_run_new (sp : ℤ) (ho : c.offer rs = some o) (hty : c.pack.type ≠ .data)
    (he : findKey o.key t = none) :
    ∃ e, findKey o.key (c.run rs sp t) = some e ∧ e.route = (o.nextHop, o.ifIdx) ∧
      e.hop = o.hop := by
  have hadded : findKey o.key (t ++ [{ o.entry with ts := c.clock 0 }])
      = some { o.entry with ts := c.clock 0 } := by
    rw [findKey_append, he]
    simp [Offer.entry]
  rcases run_cases sp t ho with ⟨-, -, h⟩ | ⟨⟨hrreq, -⟩, added, -, h⟩ | ⟨h, -⟩
  · rw [h, clockedOrAdd_of_missing _ he]
    exact ⟨_, hadded, rfl, rfl⟩
  · have hh : o.staleHop = o.hop := by
      rw [(offer_hops ho).1, (offer_hops ho).2, OdrPack.hopCount, if_neg (by simp [hrreq])]
    rw [h, clockedOrAdd_of_missing _ he]
    simp only [Bool.false_eq_true, if_false]
    rw [clockedOrAdd_of_findKey _ hadded, findKey_clockedLoop_self, hadded]
    exact ⟨_, rfl, clockedTouch_settled hh rfl rfl⟩
  · exact absurd h hty

/-- The first pass of an RREQ with `rrep_sent` returns, or leaves the entry to a second pass. -/
lemma findKey_run_twice (ht : KeyNodup t) {added : RtblEntry} {clk : ℕ → ℤ}
    (he : findKey o.key t = some e) :
    findKey o.key (let r := clockedOrAdd sp o o.entry clk 0 t
        if r.2.1 then r.1 else (clockedOrAdd sp o added clk r.2.2 r.1).1) =
      some (if clk 0 - e.ts > sp then clockedTouch sp o clk 0 e
        else clockedTouch sp o clk (if e.hop > o.hop then 2 else 1)
          (clockedTouch sp o clk 0 e)) := by
  have hfst := findKey_clockedLoop_self sp o clk 0 t
  have hsnd := clockedLoop_snd sp clk 0 ht he
  rw [clockedOrAdd_of_findKey _ he]
  rw [he, Option.map_some] at hfst
  generalize clockedLoop sp o clk 0 t = r at hfst hsnd ⊢
  obtain ⟨t₁, b, i⟩ := r
  simp only at hfst hsnd ⊢
  split at hsnd
  · next hst =>
    obtain ⟨rfl, rfl⟩ := Prod.mk.inj hsnd
    rw [if_pos rfl, if_pos hst, hfst]
  · next hst =>
    obtain ⟨rfl, rfl⟩ := Prod.mk.inj hsnd
    rw [if_neg (by simp), if_neg hst, clockedOrAdd_of_findKey _ hfst, findKey_clockedLoop_self,
      hfst]
    rfl

/-- DATA adds no entry. -/
lemma findKey_run_data (ho : c.offer rs = some o) (hty : c.pack.type = .data)
    (he : findKey o.key t = none) : findKey o.key (c.run rs sp t) = none := by
  rcases run_cases sp t ho with ⟨h, -⟩ | ⟨⟨h, -⟩, -⟩ | ⟨-, h⟩
  · exact absurd hty h
  · simp [hty] at h
  · rw [h, findKey_clockedLoop_self, he]
    rfl

/-- An entry under the key of the offer. -/
lemma findKey_run_some (sp : ℤ) (ht : KeyNodup t) (ho : c.offer rs = some o)
    (he : findKey o.key t = some e) :
    ∃ e', findKey o.key (c.run rs sp t) = some e' ∧
      e'.route = (if c.Outdates sp e ∨ o.hop < e.hop then (o.nextHop, o.ifIdx) else e.route) ∧
      e'.hop = if c.Outdates sp e then min e.hop o.staleHop else min e.hop o.hop := by
  have hfirst : (c.Outdates sp e ↔ c.clock 0 - e.ts > sp) →
      (clockedTouch sp o c.clock 0 e).route
          = (if c.Outdates sp e ∨ o.hop < e.hop then (o.nextHop, o.ifIdx) else e.route) ∧
        (clockedTouch sp o c.clock 0 e).hop
          = if c.Outdates sp e then min e.hop o.staleHop else min e.hop o.hop := by
    intro hsingle
    simp only [hsingle]
    exact ⟨clockedTouch_route .., clockedTouch_hop ..⟩
  rcases run_cases sp t ho with
    ⟨-, hone, h⟩ | ⟨⟨hrreq, hsent⟩, added, -, h⟩ | ⟨hdata, h⟩
  · rw [h, clockedOrAdd_of_findKey _ he, findKey_clockedLoop_self, he]
    refine ⟨_, rfl, hfirst ⟨fun hout => ?_, Or.inl⟩⟩
    rcases hout with hst | ⟨h₁, h₂, -⟩
    · exact hst
    · exact absurd ⟨h₁, h₂⟩ hone
  · rw [h, findKey_run_twice ht he]
    refine ⟨_, rfl, ?_⟩
    by_cases hst : c.clock 0 - e.ts > sp
    · rw [if_pos hst]
      exact hfirst ⟨fun _ => hst, Or.inl⟩
    rw [if_neg hst]
    have hh : o.staleHop = o.hop := by
      rw [(offer_hops ho).1, (offer_hops ho).2, OdrPack.hopCount, if_neg (by simp [hrreq])]
    by_cases hlt : o.hop < e.hop
    · -- the first pass has improved the entry
      rw [if_pos (Or.inr hlt), hh, ite_self, min_eq_right hlt.le]
      refine clockedTouch_settled hh ?_ ?_
      · rw [clockedTouch_route, if_pos (Or.inr hlt)]
      · rw [clockedTouch_hop, if_neg hst, min_eq_right hlt.le]
    · have hsame : clockedTouch sp o c.clock 0 e = e := by
        rw [clockedTouch, if_neg hst]
        exact improve_of_le (not_lt.mp hlt)
      have hout : c.Outdates sp e ↔ c.clock 1 - e.ts > sp :=
        ⟨fun h => (h.resolve_left hst).2.2, fun h => Or.inr ⟨hrreq, hsent, h⟩⟩
      rw [hsame, if_neg (show ¬e.hop > o.hop from hlt), clockedTouch_route, clockedTouch_hop]
      exact ⟨by simp only [hout], by simp only [hout]⟩
  · rw [h, findKey_clockedLoop_self, he]
    refine ⟨_, rfl, hfirst ⟨fun hout => ?_, Or.inl⟩⟩
    rcases hout with hst | ⟨h₁, -⟩
    · exact hst
    · simp [hdata] at h₁

end UpdateCall

/-! ## Runs of the table -/

/-- The routing table as a transition system whose steps are the calls. -/
def tableSystem (rs : Resolver) (sp : ℤ) : System Rtbl UpdateCall where
  init t := t = []
  step t c := some (c.run rs sp t)

/-- The last call of a run that set the next hop under a key. -/
def lastSetter (rs : Resolver) (sp key : ℤ) (tr : List (Rtbl × UpdateCall)) : Option UpdateCall :=
  lastOf (fun x => if x.2.sets rs sp x.1 key then some x.2 else none) tr

/-- The next hop, the interface and the hop count of the entry are those of the packet that set
the next hop last. -/
def FromSetter (rs : Resolver) (sp : ℤ) (tr : List (Rtbl × UpdateCall)) (e : RtblEntry) : Prop :=
  ∃ c, lastSetter rs sp e.key tr = some c ∧ e.nextHopHwaddr = c.nextHop ∧ e.ifNo = c.ifIdx ∧
    e.hop = c.pack.hopCount

/-- The call replaces a stale entry and records a hop count other than the one the packet
names. -/
def UpdateCall.Mixes (rs : Resolver) (sp : ℤ) (t : Rtbl) (c : UpdateCall) : Prop :=
  ∃ o e, c.offer rs = some o ∧ findKey o.key t = some e ∧ c.Outdates sp e ∧
    min e.hop c.pack.rreq.hop ≠ c.pack.hopCount

variable {rs : Resolver} {sp : ℤ} {tr : List (Rtbl × UpdateCall)} {t : Rtbl} {c : UpdateCall}

lemma lastSetter_snoc (key : ℤ) :
    lastSetter rs sp key (tr ++ [(t, c)]) =
      if c.sets rs sp t key then some c else lastSetter rs sp key tr := by
  rw [lastSetter, lastOf_snoc]
  split
  · rfl
  · rfl

lemma keyNodup_of_run {ok : Rtbl → UpdateCall → Prop} (hr : (tableSystem rs sp).Run ok tr t) :
    KeyNodup t := by
  have hs : Sound rs t := hr.invariant (I := fun _ t => Sound rs t)
    (fun t ht => by rw [show t = [] from ht]; exact .nil) (fun _ t c t' _ ht _ hstep => by
      obtain rfl := Option.some_injective _ hstep
      exact (extends_clockedUpdate sp c.clock c.pack c.nextHop c.ifIdx ht).sound)
  exact hs.nodup

lemma fromSetter_iff {e : RtblEntry} :
    FromSetter rs sp tr e ↔ ∃ c, lastSetter rs sp e.key tr = some c ∧
      e.route = (c.nextHop, c.ifIdx) ∧ e.hop = c.pack.hopCount := by
  simp [FromSetter, RtblEntry.route, and_assoc]

lemma UpdateCall.sets_iff {o : Offer} (ho : c.offer rs = some o) {e : RtblEntry}
    (he : findKey o.key t = some e) :
    c.sets rs sp t o.key = true ↔ c.Outdates sp e ∨ o.hop < e.hop := by
  simp [sets, ho, he, (offer_hops ho).1]

lemma UpdateCall.sets_of_missing {o : Offer} (ho : c.offer rs = some o)
    (hty : c.pack.type ≠ .data) (he : findKey o.key t = none) :
    c.sets rs sp t o.key = true := by
  simp [sets, ho, he, hty]

/-- A call sets nothing under a key for which it makes no offer. -/
lemma UpdateCall.sets_eq_false {key : ℤ} (h : ∀ o, c.offer rs = some o → key ≠ o.key) :
    c.sets rs sp t key = false := by
  rw [sets, Bool.and_eq_false_iff]
  left
  simp only [decide_eq_false_iff_not, Option.map_eq_some_iff, not_exists, not_and]
  exact fun o ho hk => h o ho hk.symm

/-- An entry keeps its setter when the call sets nothing under its key. -/
lemma FromSetter.keep {e e' : RtblEntry} (h : FromSetter rs sp tr e) (hkey : e'.key = e.key)
    (hroute : e'.route = e.route) (hhop : e'.hop = e.hop)
    (hset : c.sets rs sp t e.key = false) : FromSetter rs sp (tr ++ [(t, c)]) e' := by
  obtain ⟨c', hlast, hr, hh⟩ := fromSetter_iff.mp h
  refine fromSetter_iff.mpr ⟨c', ?_, hroute.trans hr, hhop.trans hh⟩
  rw [hkey, lastSetter_snoc, hset, if_neg (by simp)]
  exact hlast

/-- The call that sets the next hop becomes the setter. -/
lemma fromSetter_of_sets {e : RtblEntry} (hset : c.sets rs sp t e.key = true)
    (hroute : e.route = (c.nextHop, c.ifIdx)) (hhop : e.hop = c.pack.hopCount) :
    FromSetter rs sp (tr ++ [(t, c)]) e :=
  fromSetter_iff.mpr ⟨c, by rw [lastSetter_snoc, if_pos hset], hroute, hhop⟩

/-- A call that does not mix keeps the entries of the table coherent. -/
lemma fromSetter_run (ht : KeyNodup t)
    (hcoh : ∀ key e, findKey key t = some e → FromSetter rs sp tr e) (hmix : ¬c.Mixes rs sp t)
    {key : ℤ} {e' : RtblEntry} (he' : findKey key (c.run rs sp t) = some e') :
    FromSetter rs sp (tr ++ [(t, c)]) e' := by
  rcases ho : c.offer rs with _ | o
  · rw [UpdateCall.run_of_offer_none ho] at he'
    exact (hcoh key e' he').keep rfl rfl rfl (UpdateCall.sets_eq_false (by simp [ho]))
  have hkey := key_of_findKey he'
  obtain ⟨hn, hi, -⟩ := offer_nextHop ho
  obtain ⟨hhop, hstale⟩ := offer_hops ho
  by_cases hne : key ≠ o.key
  · rw [UpdateCall.findKey_run_ne ho hne] at he'
    refine (hcoh key e' he').keep rfl rfl rfl (UpdateCall.sets_eq_false fun o' ho' => ?_)
    obtain rfl := Option.some_injective _ (ho.symm.trans ho')
    rwa [hkey]
  obtain rfl : key = o.key := not_not.mp hne
  rcases he : findKey o.key t with _ | e
  · by_cases hty : c.pack.type = .data
    · rw [UpdateCall.findKey_run_data ho hty he] at he'
      simp at he'
    · obtain ⟨e₁, h₁, hr, hh⟩ := UpdateCall.findKey_run_new sp ho hty he
      obtain rfl := Option.some_injective _ (h₁.symm.trans he')
      refine fromSetter_of_sets ?_ (by rw [hr, hn, hi]) (hh.trans hhop)
      rw [hkey]
      exact UpdateCall.sets_of_missing ho hty he
  · obtain ⟨e₁, h₁, hr, hh⟩ := UpdateCall.findKey_run_some sp ht ho he
    obtain rfl := Option.some_injective _ (h₁.symm.trans he')
    by_cases hset : c.Outdates sp e ∨ o.hop < e.hop
    · rw [if_pos hset] at hr
      refine fromSetter_of_sets ?_ (by rw [hr, hn, hi]) ?_
      · rw [hkey]
        exact (UpdateCall.sets_iff ho he).mpr hset
      · by_cases hout : c.Outdates sp e
        · -- a stale entry: the recorded count is the packet's because the call does not mix
          rw [hh, if_pos hout, hstale]
          by_contra hmin
          exact hmix ⟨o, e, ho, he, hout, hmin⟩
        · rw [hh, if_neg hout, min_eq_right (hset.resolve_left hout).le, hhop]
    · rw [if_neg hset] at hr
      obtain ⟨hout, hlt⟩ := not_or.mp hset
      rw [if_neg hout, min_eq_left (not_lt.mp hlt)] at hh
      have hk := key_of_findKey he
      refine (hcoh o.key e he).keep (hkey.trans hk.symm) hr hh ?_
      rw [hk, Bool.eq_false_iff, Ne, UpdateCall.sets_iff ho he]
      exact hset

/-- A call that mixes leaves an entry that is not coherent. -/
lemma not_fromSetter_of_mixes (tr : List (Rtbl × UpdateCall)) (ht : KeyNodup t)
    (hmix : c.Mixes rs sp t) :
    ∃ e ∈ c.run rs sp t, ¬FromSetter rs sp (tr ++ [(t, c)]) e := by
  obtain ⟨o, e, ho, he, hout, hne⟩ := hmix
  obtain ⟨e', he', -, hh⟩ := UpdateCall.findKey_run_some sp ht ho he
  refine ⟨e', mem_of_findKey he', ?_⟩
  rintro ⟨c', hlast, -, -, hc'⟩
  rw [key_of_findKey he', lastSetter_snoc,
    if_pos ((UpdateCall.sets_iff ho he).mpr (Or.inl hout))] at hlast
  obtain rfl := Option.some_injective _ hlast
  rw [hh, if_pos hout, (offer_hops ho).2] at hc'
  exact hne hc'

lemma exec_tableSystem (rs : Resolver) (sp : ℤ) (t : Rtbl) (cs : List UpdateCall) :
    (tableSystem rs sp).exec t cs = some (cs.foldl (UpdateCall.run rs sp) t) := by
  induction cs generalizing t with
  | nil => rfl
  | cons c cs ih =>
    rw [System.exec, List.foldl_cons, ← ih]
    rfl

/-- A sequence of calls from the empty table is a run. -/
lemma run_tableOf (rs : Resolver) (sp : ℤ) (cs : List UpdateCall) :
    (tableSystem rs sp).Run (fun _ _ => True) ((tableSystem rs sp).trace [] cs)
      (tableOf rs sp cs) := by
  rw [tableOf]
  simpa using System.run_exec (.start rfl) (fun _ _ => trivial) (exec_tableSystem rs sp [] cs)

/-- **When the fields of an entry come from one packet.** For every sequence of calls with any
readings of the clock, the entries of all tables that occur have the next hop, the interface and
the hop count of the packet that set the next hop last if and only if no call replaces a stale
entry for which the smaller of the old hop count and `rreq.hop` is not the hop count that the
packet names. -/
theorem coherent_iff (rs : Resolver) (sp : ℤ) (cs : List UpdateCall) :
    Along (fun pre x => ∀ e ∈ x.2.run rs sp x.1, FromSetter rs sp (pre ++ [x]) e)
        ((tableSystem rs sp).trace [] cs) ↔
      Along (fun _ x => ¬x.2.Mixes rs sp x.1) ((tableSystem rs sp).trace [] cs) := by
  have hr := run_tableOf rs sp cs
  have hiff := hr.along_iff
    (I := fun tr t => ∀ key e, findKey key t = some e → FromSetter rs sp tr e)
    (P := fun tr t => ∀ e ∈ t, FromSetter rs sp tr e) (C := fun _ x => ¬x.2.Mixes rs sp x.1)
    (fun t ht key e he => ?_) ?_ ?_ ?_
  · simpa [tableSystem] using hiff
  · rw [show t = [] from ht, findKey_nil] at he
    simp at he
  · rintro tr t c t' hr hcoh - hstep hmix key e he
    obtain rfl := Option.some_injective _ hstep
    exact fromSetter_run (keyNodup_of_run hr) hcoh hmix he
  · intro tr t hr hcoh e he
    exact hcoh e.key e (findKey_of_mem (keyNodup_of_run hr) he)
  · rintro tr t c t' hr - - hstep hnext hmix
    obtain rfl := Option.some_injective _ hstep
    obtain ⟨e, he, hnot⟩ := not_fromSetter_of_mixes tr (keyNodup_of_run hr) hmix
    exact hnot (hnext e he)

/-- An RREQ of the first machine that has crossed this many links, received at this time through
this interface. -/
def lateRreq (now hop : ℤ) (nextHop : HwAddr) (ifIdx : ℤ) : UpdateCall :=
  ⟨fun _ => now, { Lab.blankPack with
    type := .rreq, srcCanIpStr := Lab.ip 0, rreq := ⟨hop, 1, 0, 0⟩ }, nextHop, ifIdx⟩

/-- A path of three links replaces a stale entry and is recorded with the one link of the old
path. -/
theorem mixed_entry :
    ¬∀ rs sp cs, Along (fun pre x => ∀ e ∈ x.2.run rs sp x.1, FromSetter rs sp (pre ++ [x]) e)
      ((tableSystem rs sp).trace [] cs) := by
  intro h
  have hlast := h Lab.resolver 5 [lateRreq 0 1 7 1, lateRreq 6 3 9 2]
    [([], lateRreq 0 1 7 1)] ((lateRreq 0 1 7 1).run Lab.resolver 5 [], lateRreq 6 3 9 2)
    List.prefix_rfl ⟨1, Lab.ip 0, 9, 2, 1, 6⟩ (by decide +kernel)
  obtain ⟨c, hc, -, -, hhop⟩ := hlast
  have hsetter : c = lateRreq 6 3 9 2 := (Option.some_injective _ (Eq.trans (by rfl) hc)).symm
  rw [hsetter] at hhop
  exact absurd hhop (by decide)

end Odr
