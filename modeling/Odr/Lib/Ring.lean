/-
# Rings of linked cells

A doubly linked circular list in memory: every cell has a next and a previous cell, and following
the next cells from the head leads through the cells of the list back to the head.

`Ring m h l` says that in the memory `m` the cells `l` form the ring of the head `h`.  The rules
`Ring.insert`, `Ring.remove` and `Ring.splice` say which writes change a ring into another one, for
every memory that agrees with the old one elsewhere; a ring may be read from any of its cells
(`ring_rotate`) and in the other direction (`ring_swap`).  `walk` is a loop around a ring whose body
may change the state and leave the loop; `walk_ring` says that it visits the cells in order.
-/
import Mathlib

namespace Ring

variable {P : Type*}

/-- The two links of every cell. -/
structure Links (P : Type*) where
  next : P → P
  prev : P → P

/-- The links in the other direction. -/
def Links.swap (m : Links P) : Links P := ⟨m.prev, m.next⟩

/-- The memory after the next cell of `a` is set to `b`. -/
def Links.setNext [DecidableEq P] (m : Links P) (a b : P) : Links P :=
  { m with next := Function.update m.next a b }

/-- The memory after the previous cell of `a` is set to `b`. -/
def Links.setPrev [DecidableEq P] (m : Links P) (a b : P) : Links P :=
  { m with prev := Function.update m.prev a b }

@[simp] lemma next_setNext [DecidableEq P] (m : Links P) (a b : P) :
    (m.setNext a b).next = Function.update m.next a b := rfl

@[simp] lemma prev_setNext [DecidableEq P] (m : Links P) (a b : P) :
    (m.setNext a b).prev = m.prev := rfl

@[simp] lemma next_setPrev [DecidableEq P] (m : Links P) (a b : P) :
    (m.setPrev a b).next = m.next := rfl

@[simp] lemma prev_setPrev [DecidableEq P] (m : Links P) (a b : P) :
    (m.setPrev a b).prev = Function.update m.prev a b := rfl

/-- The links of the cell `y` are the same in both memories. -/
def Links.Same (m' m : Links P) (y : P) : Prop := m'.next y = m.next y ∧ m'.prev y = m.prev y

/-- The cell `b` comes after the cell `a`. -/
def Links.Joined (m : Links P) (a b : P) : Prop := m.next a = b ∧ m.prev b = a

/-- The links lead from `a` through the cells `l` to `b`. -/
def Seg (m : Links P) : P → List P → P → Prop
  | a, [], b => m.Joined a b
  | a, x :: l, b => m.Joined a x ∧ Seg m x l b

/-- The cells `l` form the ring of the head `h`. -/
structure IsRing (m : Links P) (h : P) (l : List P) : Prop where
  nodup : (h :: l).Nodup
  seg : Seg m h l h

variable {m m' : Links P} {a b h g p e x : P} {l l₁ l₂ r : List P}

/-! ## Segments -/

lemma seg_append_cons : Seg m a (l₁ ++ x :: l₂) b ↔ Seg m a l₁ x ∧ Seg m x l₂ b := by
  induction l₁ generalizing a with
  | nil => exact Iff.rfl
  | cons y l₁ ih => rw [List.cons_append, Seg, Seg, ih, and_assoc]

/-- A segment depends on the next cells of all its cells but the last, and on the previous cells
of all but the first. -/
lemma Seg.congr (hs : Seg m a l b) (hnext : ∀ y ∈ a :: l, m'.next y = m.next y)
    (hprev : ∀ y ∈ b :: l, m'.prev y = m.prev y) : Seg m' a l b := by
  induction l generalizing a with
  | nil =>
    have hn := hnext a (by simp)
    have hp := hprev b (by simp)
    exact ⟨hn.trans hs.1, hp.trans hs.2⟩
  | cons y l ih =>
    have hn := hnext a (by simp)
    have hp := hprev y (by simp)
    refine ⟨⟨hn.trans hs.1.1, hp.trans hs.1.2⟩, ih hs.2 (fun z hz => ?_) fun z hz => ?_⟩
    · exact hnext z (List.mem_cons_of_mem _ hz)
    · rcases List.mem_cons.mp hz with rfl | hz
      · exact hprev z (by simp)
      · exact hprev z (by simp [hz])

/-- The cell before the end of a segment is one of its cells. -/
lemma Seg.prev_mem (hs : Seg m a l b) : m.prev b ∈ a :: l := by
  induction l generalizing a with
  | nil => simp [hs.2]
  | cons y l ih => exact List.mem_cons_of_mem _ (ih hs.2)

/-- A segment led to another end. -/
lemma Seg.retarget (hs : Seg m a l b) (hnd : (a :: l).Nodup) {b' : P}
    (hend : m'.Joined (m.prev b) b') (hnext : ∀ y ∈ a :: l, y ≠ m.prev b → m'.next y = m.next y)
    (hprev : ∀ y ∈ l, m'.prev y = m.prev y) : Seg m' a l b' := by
  induction l generalizing a with
  | nil =>
    rw [hs.2] at hend
    exact hend
  | cons y l ih =>
    have hne : a ≠ m.prev b := by
      intro h
      exact (List.nodup_cons.mp hnd).1 (h ▸ hs.2.prev_mem)
    have hn := hnext a (by simp) hne
    have hp := hprev y (by simp)
    refine ⟨⟨hn.trans hs.1.1, hp.trans hs.1.2⟩,
      ih hs.2 (List.nodup_cons.mp hnd).2 (fun z hz => ?_) fun z hz => ?_⟩
    · exact hnext z (List.mem_cons_of_mem _ hz)
    · exact hprev z (List.mem_cons_of_mem _ hz)

lemma seg_swap : Seg m.swap b l.reverse a ↔ Seg m a l b := by
  induction l generalizing a with
  | nil => exact and_comm
  | cons x l ih =>
    rw [List.reverse_cons, seg_append_cons, ih, Seg, and_comm]
    exact and_congr and_comm Iff.rfl

/-! ## Rings -/

/-- A ring read from another of its cells. -/
lemma ring_rotate : IsRing m h (l₁ ++ x :: l₂) ↔ IsRing m x (l₂ ++ h :: l₁) := by
  have hperm : (h :: (l₁ ++ x :: l₂)).Perm (x :: (l₂ ++ h :: l₁)) := by
    have h₁ : ((h :: l₁) ++ (x :: l₂)).Perm ((x :: l₂) ++ (h :: l₁)) := List.perm_append_comm
    simpa using h₁
  constructor
  · rintro ⟨hnd, hseg⟩
    exact ⟨hperm.nodup_iff.mp hnd, seg_append_cons.mpr (seg_append_cons.mp hseg).symm⟩
  · rintro ⟨hnd, hseg⟩
    exact ⟨hperm.nodup_iff.mpr hnd, seg_append_cons.mpr (seg_append_cons.mp hseg).symm⟩

/-- A ring read backwards. -/
lemma ring_swap : IsRing m.swap h l.reverse ↔ IsRing m h l := by
  have hnd : (h :: l.reverse).Nodup ↔ (h :: l).Nodup := by simp
  exact ⟨fun ⟨h₁, h₂⟩ => ⟨hnd.mp h₁, seg_swap.mp h₂⟩, fun ⟨h₁, h₂⟩ => ⟨hnd.mpr h₁, seg_swap.mpr h₂⟩⟩

/-- A ring depends on the links of its cells. -/
lemma IsRing.congr (hR : IsRing m h l) (hm : ∀ y ∈ h :: l, m'.Same m y) : IsRing m' h l :=
  ⟨hR.nodup, hR.seg.congr (fun y hy => (hm y hy).1) fun y hy => (hm y hy).2⟩

lemma IsRing.next_nil (hR : IsRing m h []) : m.next h = h := hR.seg.1

lemma IsRing.next_cons (hR : IsRing m h (x :: l)) : m.next h = x := hR.seg.1.1

lemma IsRing.prev_concat (hR : IsRing m h (l ++ [x])) : m.prev h = x :=
  (seg_append_cons.mp hR.seg).2.2

lemma IsRing.prev_mem (hR : IsRing m h l) : m.prev h ∈ h :: l := hR.seg.prev_mem

lemma IsRing.next_mem (hR : IsRing m h l) : m.next h ∈ h :: l := by
  have h' := (ring_swap.mpr hR).prev_mem
  simpa [Links.swap] using h'

/-- A ring is empty when the head is its own next cell. -/
lemma IsRing.next_eq_self (hR : IsRing m h l) : m.next h = h ↔ l = [] := by
  rcases l with _ | ⟨x, l⟩
  · exact iff_of_true hR.next_nil rfl
  · have hne : x ≠ h := fun hx => (List.nodup_cons.mp hR.nodup).1 (hx ▸ List.mem_cons_self)
    exact iff_of_false (fun hx => hne (hR.next_cons.symm.trans hx)) (by simp)

/-- **Insertion after the head.** -/
theorem IsRing.insert (hR : IsRing m p l) (he : e ∉ p :: l) (h₁ : m'.Joined p e)
    (h₂ : m'.Joined e (m.next p)) (hnext : ∀ y, y ≠ p → y ≠ e → m'.next y = m.next y)
    (hprev : ∀ y, y ≠ m.next p → y ≠ e → m'.prev y = m.prev y) : IsRing m' p (e :: l) := by
  have hne : ∀ y ∈ p :: l, y ≠ e := fun y hy h => he (h ▸ hy)
  refine ⟨?_, h₁, ?_⟩
  · have hperm : (p :: e :: l).Perm (e :: p :: l) := List.Perm.swap ..
    exact hperm.nodup_iff.mpr (List.nodup_cons.mpr ⟨he, hR.nodup⟩)
  rcases l with _ | ⟨a, l⟩
  · rw [hR.next_nil] at h₂
    exact h₂
  · have hnd := List.nodup_cons.mp hR.nodup
    have hnd' := List.nodup_cons.mp hnd.2
    rw [hR.next_cons] at h₂ hprev
    refine ⟨h₂, hR.seg.2.congr (fun y hy => ?_) fun y hy => ?_⟩
    · exact hnext y (fun h => hnd.1 (h ▸ hy)) (hne y (List.mem_cons_of_mem _ hy))
    · rcases List.mem_cons.mp hy with rfl | hy
      · exact hprev y (fun h => hnd.1 (by simp [h])) (hne y (by simp))
      · exact hprev y (fun h => hnd'.1 (h ▸ hy)) (hne y (by simp [hy]))

/-- **Removal of the cell after the head.** -/
theorem IsRing.remove (hR : IsRing m p (e :: l)) (h₁ : m'.Joined p (m.next e))
    (hnext : ∀ y, y ≠ p → y ≠ e → m'.next y = m.next y)
    (hprev : ∀ y, y ≠ m.next e → y ≠ e → m'.prev y = m.prev y) : IsRing m' p l := by
  obtain ⟨hpe, hnd⟩ := List.nodup_cons.mp hR.nodup
  rw [List.mem_cons, not_or] at hpe
  obtain ⟨hel, hnd⟩ := List.nodup_cons.mp hnd
  refine ⟨List.nodup_cons.mpr ⟨hpe.2, hnd⟩, ?_⟩
  have hseg := hR.seg.2
  rcases l with _ | ⟨a, l⟩
  · have hn : m.next e = p := hseg.1
    rw [hn] at h₁
    exact h₁
  · have hn : m.next e = a := hseg.1.1
    have hal := (List.nodup_cons.mp hnd).1
    rw [hn] at h₁ hprev
    refine ⟨h₁, hseg.2.congr (fun y hy => ?_) fun y hy => ?_⟩
    · exact hnext y (fun h => hpe.2 (h ▸ hy)) (fun h => hel (h ▸ hy))
    · rcases List.mem_cons.mp hy with rfl | hy
      · exact hprev y (fun h => hpe.2 (by simp [h])) hpe.1
      · exact hprev y (fun h => hal (h ▸ hy)) (fun h => hel (by simp [← h, hy]))

/-- Insertion before the head. -/
lemma IsRing.insert_last (hR : IsRing m h l) (he : e ∉ h :: l) (h₁ : m'.Joined (m.prev h) e)
    (h₂ : m'.Joined e h) (hnext : ∀ y, y ≠ m.prev h → y ≠ e → m'.next y = m.next y)
    (hprev : ∀ y, y ≠ h → y ≠ e → m'.prev y = m.prev y) : IsRing m' h (l ++ [e]) := by
  rcases List.eq_nil_or_concat l with rfl | ⟨l, x, rfl⟩
  · have hp : m.prev h = h := hR.seg.2
    rw [hp] at h₁ hnext
    refine hR.insert he h₁ (by rwa [hR.next_nil]) hnext ?_
    rwa [hR.next_nil]
  · rw [List.concat_eq_append] at hR he ⊢
    have hx : m.prev h = x := hR.prev_concat
    have hX : IsRing m x (h :: l) := ring_rotate.mp hR
    rw [hx] at h₁ hnext
    have hI : IsRing m' x (e :: h :: l) := by
      refine hX.insert (fun hm => he ?_) h₁ (by rwa [hX.next_cons]) hnext (by rwa [hX.next_cons])
      simp only [List.mem_cons, List.mem_append] at hm ⊢
      tauto
    rw [List.append_assoc]
    exact ring_rotate.mpr hI

/-- Removal of any cell. -/
lemma IsRing.remove_mem (hR : IsRing m h (l₁ ++ e :: l₂)) (h₁ : m'.Joined (m.prev e) (m.next e))
    (hnext : ∀ y, y ≠ m.prev e → y ≠ e → m'.next y = m.next y)
    (hprev : ∀ y, y ≠ m.next e → y ≠ e → m'.prev y = m.prev y) : IsRing m' h (l₁ ++ l₂) := by
  rcases List.eq_nil_or_concat l₁ with rfl | ⟨l, p, rfl⟩
  · have hp : m.prev e = h := hR.seg.1.2
    rw [hp] at h₁ hnext
    exact IsRing.remove hR h₁ hnext hprev
  · rw [List.concat_eq_append, List.append_assoc] at hR ⊢
    have hP : IsRing m p (e :: (l₂ ++ h :: l)) := ring_rotate.mp hR
    have hp : m.prev e = p := hP.seg.1.2
    rw [hp] at h₁ hnext
    exact ring_rotate.mpr (hP.remove h₁ hnext hprev)

/-- **Splicing.** The cells of the ring of `g` come between the head `h` and its cells. -/
theorem IsRing.splice (hR : IsRing m h l) (hG : IsRing m g r) (hr : r ≠ [])
    (hdisj : List.Disjoint (h :: l) (g :: r)) (h₁ : m'.Joined h (m.next g))
    (h₂ : m'.Joined (m.prev g) (m.next h))
    (hnext : ∀ y, y ≠ h → y ≠ m.prev g → m'.next y = m.next y)
    (hprev : ∀ y, y ≠ m.next g → y ≠ m.next h → m'.prev y = m.prev y) :
    IsRing m' h (r ++ l) := by
  obtain ⟨x, r, rfl⟩ := List.exists_cons_of_ne_nil hr
  have hx : m.next g = x := hG.next_cons
  have hndr := (List.nodup_cons.mp hG.nodup).2
  have hxr := (List.nodup_cons.mp hndr).1
  have hh := List.nodup_cons.mp hR.nodup
  have hlast : m.prev g ∈ x :: r := hG.seg.2.prev_mem
  have hout : ∀ y ∈ h :: l, y ∉ x :: r := fun y hy hy' =>
    hdisj hy (List.mem_cons_of_mem _ hy')
  have hnd : (h :: (x :: r ++ l)).Nodup := by
    have hperm : (h :: (x :: r ++ l)).Perm ((x :: r) ++ h :: l) := List.perm_middle.symm
    refine hperm.nodup_iff.mpr (List.Nodup.append hndr hR.nodup ?_)
    exact fun y hy hy' => hout y hy' hy
  rw [hx] at h₁ hprev
  suffices hs : Seg m' x (r ++ l) h from ⟨hnd, h₁, hs⟩
  -- the cells of `g` now lead to what came after `h`
  have hseg : Seg m' x r (m.next h) := by
    refine hG.seg.2.retarget hndr h₂ (fun y hy hne => hnext y ?_ hne) fun y hy => hprev y ?_ ?_
    · rintro rfl
      exact hout y (by simp) hy
    · exact fun h => hxr (h ▸ hy)
    · intro hy'
      exact hout _ hR.next_mem (hy' ▸ List.mem_cons_of_mem _ hy)
  rcases l with _ | ⟨a, l⟩
  · rw [List.append_nil]
    rwa [hR.next_nil] at hseg
  · have ha : m.next h = a := hR.next_cons
    have hal := (List.nodup_cons.mp hh.2).1
    rw [ha] at hseg hprev
    refine seg_append_cons.mpr ⟨hseg, hR.seg.2.congr (fun y hy => ?_) fun y hy => ?_⟩
    · refine hnext y (fun h' => hh.1 (h' ▸ hy)) ?_
      rintro rfl
      exact hout _ (List.mem_cons_of_mem _ hy) hlast
    · have hyl : y ∈ h :: a :: l := by
        rcases List.mem_cons.mp hy with rfl | hy
        · simp
        · simp [hy]
      refine hprev y (fun h' => hout y hyl (by simp [h'])) ?_
      rcases List.mem_cons.mp hy with rfl | hy
      · exact fun h' => hh.1 (by simp [h'])
      · exact fun h' => hal (h' ▸ hy)

/-! ## Loops around a ring -/

section Walk

variable {S R : Type*} [DecidableEq P]

/-- A loop from the cell `pos` until it is back at the head.  The body may change the state and
may return; the loop goes on with the cell that the state after the body leads to.  The result is
`none` if the steps run out. -/
def walk (succ : S → P → P) (h : P) (body : P → S → S × Option R) :
    ℕ → P → S → Option (S × Option R)
  | 0, _, _ => none
  | n + 1, pos, s =>
      if pos = h then some (s, none)
      else
        match body pos s with
        | (s', some r) => some (s', some r)
        | (s', none) => walk succ h body n (succ s' pos) s'

/-- The body for the cells of a list one after the other, until it returns. -/
def visit (body : P → S → S × Option R) : List P → S → S × Option R
  | [], s => (s, none)
  | p :: l, s =>
      match body p s with
      | (s', some r) => (s', some r)
      | (s', none) => visit body l s'

variable {succ : S → P → P} {body : P → S → S × Option R}

/-- The loop visits the cells of a segment in order if its body keeps their links. -/
lemma walk_seg {links : S → Links P} (hkeep : ∀ p s, links (body p s).1 = links s) {s : S} {n : ℕ}
    (hs : Seg (links s) a l h) (hl : h ∉ l) (hn : l.length < n) :
    walk (fun s => (links s).next) h body n ((links s).next a) s = some (visit body l s) := by
  induction l generalizing a s n with
  | nil =>
    obtain ⟨n, rfl⟩ := Nat.exists_eq_succ_of_ne_zero (Nat.ne_of_gt hn)
    rw [hs.1, walk, if_pos rfl, visit]
  | cons x l ih =>
    obtain ⟨n, rfl⟩ := Nat.exists_eq_succ_of_ne_zero (Nat.ne_of_gt (Nat.zero_lt_of_lt hn))
    have hxh : x ≠ h := fun hx => hl (by simp [hx])
    rw [hs.1.1, walk, if_neg hxh, visit]
    have hk := hkeep x s
    rcases hb : body x s with ⟨s', _ | r⟩
    · rw [hb] at hk
      have hs' : Seg (links s') x l h := by rw [hk]; exact hs.2
      exact ih hs' (fun hm => hl (List.mem_cons_of_mem _ hm)) (Nat.lt_of_succ_lt_succ hn)
    · rfl

/-- **A loop around a ring** visits its cells in order and comes to an end. -/
theorem walk_ring (links : S → Links P) (hkeep : ∀ p s, links (body p s).1 = links s) {s : S}
    {n : ℕ} (hR : IsRing (links s) h l) (hn : l.length < n) :
    walk (fun s => (links s).next) h body n ((links s).next h) s = some (visit body l s) :=
  walk_seg hkeep hR.seg (List.nodup_cons.mp hR.nodup).1 hn

/-- The loop in the other direction. -/
theorem walk_ring_reverse (links : S → Links P) (hkeep : ∀ p s, links (body p s).1 = links s)
    {s : S} {n : ℕ} (hR : IsRing (links s) h l) (hn : l.length < n) :
    walk (fun s => (links s).prev) h body n ((links s).prev h) s
      = some (visit body l.reverse s) :=
  walk_ring (fun s => (links s).swap) (fun p s => congrArg Links.swap (hkeep p s))
    (ring_swap.mpr hR) (by simpa using hn)

end Walk

end Ring
