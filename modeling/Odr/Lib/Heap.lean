/-
# Programs on a heap

A heap maps the addresses of the allocated blocks to what they hold.  A program allocates, loads,
stores and frees; using a block that is not allocated is a `fault`, and the process may end itself
or run out of fuel.

A program is specified by the blocks that it owns: `Owns h₀ cells h` says that the heap `h` is `h₀`
and, apart from it, exactly the blocks `cells`.  `Meets stops A h₀ cells c post` says that from such
a heap the program `c` returns with blocks of which `post` holds, or stops as `stops` allows.  Each
command has a rule, which takes the first command off a program; the blocks of `h₀` are never
touched, so a program that returns with no blocks of its own has left the heap as it was.
-/
import Mathlib

namespace Heap

/-- How a program stops before it returns. -/
inductive Stop
  /-- The process ends itself. -/
  | exit
  /-- A block is used that is not allocated. -/
  | fault
  /-- A loop has not come to its end. -/
  | fuel
deriving DecidableEq, Repr

variable {P B α β : Type}

/-- A program on blocks that lie at addresses in `P` and hold values in `B`. -/
abbrev Prog (P B : Type) := StateT (P → Option B) (Except Stop)

/-- An allocator, which may have no room left. -/
structure Allocator (P B : Type) where
  malloc : (P → Option B) → Option P
  /-- It gives out addresses that are not in use. -/
  fresh : ∀ h p, malloc h = some p → h p = none

section Commands

variable [DecidableEq P]

/-- Allocate a block; the process ends if there is no room. -/
def alloc (A : Allocator P B) (b : B) : Prog P B P := fun h =>
  match A.malloc h with
  | none => .error .exit
  | some p => .ok (p, Function.update h p (some b))

/-- Allocate a block, without an end of the process if there is no room. -/
def malloc (A : Allocator P B) (b : B) : Prog P B (Option P) := fun h =>
  match A.malloc h with
  | none => .ok (none, h)
  | some p => .ok (some p, Function.update h p (some b))

/-- Read a block. -/
def load (p : P) : Prog P B B := fun h =>
  match h p with
  | none => .error .fault
  | some b => .ok (b, h)

/-- Write a block. -/
def store (p : P) (b : B) : Prog P B Unit := fun h =>
  match h p with
  | none => .error .fault
  | some _ => .ok ((), Function.update h p (some b))

/-- Give a block back. -/
def free (p : P) : Prog P B Unit := fun h =>
  match h p with
  | none => .error .fault
  | some _ => .ok ((), Function.update h p none)

end Commands

/-- Stop. -/
def stop (e : Stop) : Prog P B α := fun _ => .error e

/-! ## Ownership -/

/-- The heap `h` is `h₀` and, apart from it, the blocks `cells`. -/
structure Owns (h₀ : P → Option B) (cells : List (P × B)) (h : P → Option B) : Prop where
  nodup : (cells.map Prod.fst).Nodup
  apart : ∀ c ∈ cells, h₀ c.1 = none
  own : ∀ c ∈ cells, h c.1 = some c.2
  rest : ∀ p ∉ cells.map Prod.fst, h p = h₀ p

section Owns

variable {h₀ h : P → Option B} {cells cells' l₁ l₂ : List (P × B)} {p : P} {b b' : B}

lemma owns_nil : Owns h₀ [] h ↔ h = h₀ := by
  constructor
  · intro ho
    exact funext fun p => ho.rest p List.not_mem_nil
  · rintro rfl
    exact ⟨List.nodup_nil, by simp, by simp, fun _ _ => rfl⟩

lemma Owns.perm (ho : Owns h₀ cells h) (hp : cells.Perm cells') : Owns h₀ cells' h where
  nodup := (hp.map Prod.fst).nodup_iff.mp ho.nodup
  apart c hc := ho.apart c (hp.mem_iff.mpr hc)
  own c hc := ho.own c (hp.mem_iff.mpr hc)
  rest p hnot := ho.rest p fun hm => hnot ((hp.map Prod.fst).mem_iff.mp hm)

/-- The blocks determine the heap. -/
lemma Owns.unique {h' : P → Option B} (ho : Owns h₀ cells h) (ho' : Owns h₀ cells h') :
    h = h' := by
  funext p
  by_cases hp : p ∈ cells.map Prod.fst
  · obtain ⟨c, hc, rfl⟩ := List.mem_map.mp hp
    rw [ho.own c hc, ho'.own c hc]
  · rw [ho.rest p hp, ho'.rest p hp]

/-- Blocks of a heap that is itself owned. -/
lemma Owns.trans {h₁ : P → Option B} (ho : Owns h₀ cells h₁) (ho' : Owns h₁ cells' h) :
    Owns h₀ (cells' ++ cells) h := by
  have hdisj : ∀ c ∈ cells, c.1 ∉ cells'.map Prod.fst := by
    intro c hc hm
    obtain ⟨c', hc', heq⟩ := List.mem_map.mp hm
    have hnone := ho'.apart c' hc'
    rw [heq, ho.own c hc] at hnone
    cases hnone
  have hfst : ∀ c ∈ cells', c.1 ∉ cells.map Prod.fst := by
    intro c' hc' hm
    obtain ⟨c, hc, heq⟩ := List.mem_map.mp hm
    exact hdisj c hc (List.mem_map.mpr ⟨c', hc', heq.symm⟩)
  refine ⟨?_, fun c hc => ?_, fun c hc => ?_, fun p hp => ?_⟩
  · rw [List.map_append]
    refine ho'.nodup.append ho.nodup fun p hp hp' => ?_
    obtain ⟨c, hc, rfl⟩ := List.mem_map.mp hp'
    exact hdisj c hc hp
  · rcases List.mem_append.mp hc with hc | hc
    · exact (ho.rest c.1 (hfst c hc)).symm.trans (ho'.apart c hc)
    · exact ho.apart c hc
  · rcases List.mem_append.mp hc with hc | hc
    · exact ho'.own c hc
    · exact (ho'.rest c.1 (hdisj c hc)).trans (ho.own c hc)
  · rw [List.map_append, List.mem_append, not_or] at hp
    exact (ho'.rest p hp.1).trans (ho.rest p hp.2)

variable [DecidableEq P]

lemma Owns.alloc (ho : Owns h₀ cells h) (hp : h p = none) :
    Owns h₀ ((p, b) :: cells) (Function.update h p (some b)) := by
  have hnot : p ∉ cells.map Prod.fst := by
    intro hm
    obtain ⟨c, hc, rfl⟩ := List.mem_map.mp hm
    simp [ho.own c hc] at hp
  refine ⟨List.nodup_cons.mpr ⟨hnot, ho.nodup⟩, ?_, ?_, fun q hq => ?_⟩
  · rintro c (_ | ⟨_, hc⟩)
    · exact (ho.rest p hnot).symm.trans hp
    · exact ho.apart c hc
  · rintro c (_ | ⟨_, hc⟩)
    · simp
    · have hne : c.1 ≠ p := fun he => hnot (List.mem_map.mpr ⟨c, hc, he⟩)
      simpa [hne] using ho.own c hc
  · rw [List.map_cons, List.mem_cons, not_or] at hq
    simpa [hq.1] using ho.rest q hq.2

lemma Owns.store_head (ho : Owns h₀ ((p, b) :: cells) h) :
    Owns h₀ ((p, b') :: cells) (Function.update h p (some b')) := by
  obtain ⟨hnot, -⟩ := List.nodup_cons.mp ho.nodup
  refine ⟨ho.nodup, ?_, ?_, fun q hq => ?_⟩
  · rintro c (_ | ⟨_, hc⟩)
    · exact ho.apart (p, b) List.mem_cons_self
    · exact ho.apart c (List.mem_cons_of_mem _ hc)
  · rintro c (_ | ⟨_, hc⟩)
    · simp
    · have hne : c.1 ≠ p := fun he => hnot (List.mem_map.mpr ⟨c, hc, he⟩)
      simpa [hne] using ho.own c (List.mem_cons_of_mem _ hc)
  · have hne : q ≠ p := fun he => hq (he ▸ List.mem_cons_self)
    simpa [hne] using ho.rest q hq

lemma Owns.free_head (ho : Owns h₀ ((p, b) :: cells) h) :
    Owns h₀ cells (Function.update h p none) := by
  obtain ⟨hnot, hnd⟩ := List.nodup_cons.mp ho.nodup
  refine ⟨hnd, fun c hc => ho.apart c (List.mem_cons_of_mem _ hc), fun c hc => ?_, fun q hq => ?_⟩
  · have hne : c.1 ≠ p := fun he => hnot (List.mem_map.mpr ⟨c, hc, he⟩)
    simpa [hne] using ho.own c (List.mem_cons_of_mem _ hc)
  · rcases eq_or_ne q p with rfl | hne
    · simpa using (ho.apart (q, b) List.mem_cons_self).symm
    · simpa [hne] using ho.rest q (by simp_all)

lemma Owns.store (ho : Owns h₀ (l₁ ++ (p, b) :: l₂) h) :
    Owns h₀ (l₁ ++ (p, b') :: l₂) (Function.update h p (some b')) :=
  (ho.perm List.perm_middle).store_head.perm List.perm_middle.symm

lemma Owns.free (ho : Owns h₀ (l₁ ++ (p, b) :: l₂) h) :
    Owns h₀ (l₁ ++ l₂) (Function.update h p none) :=
  (ho.perm List.perm_middle).free_head

end Owns

/-! ## Rules -/

/-- From a heap with the blocks `cells`, the program returns with blocks of which `post` holds, or
stops as `stops` allows. -/
def Meets (stops : Stop → Prop) (h₀ : P → Option B) (cells : List (P × B)) (c : Prog P B α)
    (post : α → List (P × B) → Prop) : Prop :=
  ∀ h, Owns h₀ cells h →
    (∀ a h', c h = .ok (a, h') → ∃ cells', Owns h₀ cells' h' ∧ post a cells') ∧
      ∀ e, c h = .error e → stops e

/-- The allocator has room for one more block while no more than `n` are in use. -/
def HasRoom (h₀ : P → Option B) (A : Allocator P B) (n : ℕ) : Prop :=
  ∀ cells h, Owns h₀ cells h → cells.length ≤ n → A.malloc h ≠ none

/-- The allocator has room for one more block while no more than `n` are in use, unless the process
may end. -/
def Affords (stops : Stop → Prop) (h₀ : P → Option B) (A : Allocator P B) (n : ℕ) : Prop :=
  stops .exit ∨ HasRoom h₀ A n

section Rules

variable {stops : Stop → Prop} {h₀ : P → Option B} {A : Allocator P B}
  {cells cells' l₁ l₂ : List (P × B)} {c : Prog P B α} {f : α → Prog P B β}
  {post : α → List (P × B) → Prop} {mid : α → List (P × B) → Prop}
  {Q : β → List (P × B) → Prop} {p : P} {b b' : B} {n n' : ℕ}

lemma HasRoom.mono (hr : HasRoom h₀ A n) (hle : n' ≤ n) : HasRoom h₀ A n' :=
  fun cells k ho hl => hr cells k ho (hl.trans hle)

/-- Blocks that are in use take their room. -/
lemma HasRoom.trans {h₁ : P → Option B} (hr : HasRoom h₀ A (n + cells.length))
    (ho : Owns h₀ cells h₁) : HasRoom h₁ A n := by
  intro cells' h ho' hle
  refine hr _ h (ho.trans ho') ?_
  rw [List.length_append]
  omega

lemma Affords.mono (ha : Affords stops h₀ A n) (hle : n' ≤ n) : Affords stops h₀ A n' :=
  ha.imp_right fun hr => hr.mono hle

lemma meets_pure {a : α} (hpost : post a cells) :
    Meets stops h₀ cells (pure a : Prog P B α) post := by
  refine fun h ho => ⟨fun a' h' he => ?_, fun e he => nomatch he⟩
  obtain ⟨rfl, rfl⟩ := (Prod.mk.injEq ..).mp (Except.ok.inj he)
  exact ⟨cells, ho, hpost⟩

lemma meets_stop {e : Stop} (he : stops e) : Meets stops h₀ cells (stop e : Prog P B α) post := by
  refine fun h ho => ⟨fun a h' hc => (nomatch hc), fun e' hc => ?_⟩
  rwa [← Except.error.inj hc]

/-- **One program after the other.** -/
theorem Meets.bind (hc : Meets stops h₀ cells c mid)
    (hf : ∀ a cells', mid a cells' → Meets stops h₀ cells' (f a) Q) :
    Meets stops h₀ cells (c >>= f) Q := by
  intro h ho
  obtain ⟨hok, herr⟩ := hc h ho
  have hbind : (c >>= f) h = match c h with
      | .ok r => f r.1 r.2
      | .error e => .error e := by
    change (c h >>= fun r => f r.1 r.2) = _
    cases c h <;> rfl
  rcases hr : c h with e | ⟨a, h'⟩
  · rw [hbind, hr]
    refine ⟨fun _ _ he => (nomatch he), fun e' he => ?_⟩
    rw [← Except.error.inj he]
    exact herr e hr
  · rw [hbind, hr]
    obtain ⟨cells', ho', hmid⟩ := hok a h' hr
    exact hf a cells' hmid h' ho'

lemma Meets.perm (hc : Meets stops h₀ cells' c post) (hp : cells.Perm cells') :
    Meets stops h₀ cells c post := fun h ho => hc h (ho.perm hp)

lemma Meets.imp {post' : α → List (P × B) → Prop} (hc : Meets stops h₀ cells c post)
    (himp : ∀ a l, post a l → post' a l) : Meets stops h₀ cells c post' := by
  intro h ho
  obtain ⟨hok, herr⟩ := hc h ho
  exact ⟨fun a h' he => (hok a h' he).imp fun l hl => ⟨hl.1, himp a l hl.2⟩, herr⟩

/-- **A program that owns no blocks at first leaves others alone.** -/
theorem Meets.frame
    (hc : ∀ h₁, Owns h₀ cells h₁ → Meets stops h₁ [] c post) :
    Meets stops h₀ cells c fun a l => ∃ l', l = l' ++ cells ∧ post a l' := by
  intro h ho
  obtain ⟨hok, herr⟩ := hc h ho h (owns_nil.mpr rfl)
  refine ⟨fun a h' he => ?_, herr⟩
  obtain ⟨l', ho', hpost⟩ := hok a h' he
  exact ⟨l' ++ cells, ho.trans ho', l', rfl, hpost⟩

/-- A block that is owned can be read. -/
theorem meets_load {f : B → Prog P B β} (hmem : (p, b) ∈ cells)
    (hf : Meets stops h₀ cells (f b) Q) : Meets stops h₀ cells (load p >>= f) Q := by
  have hcell : Meets stops h₀ cells (load p)
      fun b' (cells' : List (P × B)) => b' = b ∧ cells' = cells := by
    intro h ho
    rw [load, ho.own _ hmem]
    refine ⟨fun b' h' he => ?_, fun e he => nomatch he⟩
    obtain ⟨rfl, rfl⟩ := (Prod.mk.injEq ..).mp (Except.ok.inj he)
    exact ⟨cells, ho, rfl, rfl⟩
  refine hcell.bind fun b' cells' he => ?_
  rw [he.1, he.2]
  exact hf

/-- **A program that returns with no blocks of its own leaves the heap as it was.** -/
theorem Meets.result {R : α → Prop} (hc : Meets stops h₀ [] c fun a l => l = [] ∧ R a) :
    (∃ a, c h₀ = .ok (a, h₀) ∧ R a) ∨ ∃ e, c h₀ = .error e ∧ stops e := by
  obtain ⟨hok, herr⟩ := hc h₀ (owns_nil.mpr rfl)
  rcases hr : c h₀ with e | ⟨a, h'⟩
  · exact Or.inr ⟨e, rfl, herr e hr⟩
  · obtain ⟨cells', ho, rfl, hR⟩ := hok a h' hr
    rw [owns_nil.mp ho]
    exact Or.inl ⟨a, rfl, hR⟩

/-- **A program that leaves its blocks as they are leaves the heap as it is.** -/
theorem Meets.reads {R : α → Prop} {h : P → Option B}
    (hc : Meets (fun _ => False) h₀ cells c fun a l => l = cells ∧ R a) (ho : Owns h₀ cells h) :
    ∃ a, c h = .ok (a, h) ∧ R a := by
  obtain ⟨hok, herr⟩ := hc h ho
  rcases hr : c h with e | ⟨a, h'⟩
  · exact (herr e hr).elim
  · obtain ⟨_, ho', rfl, hR⟩ := hok a h' hr
    rw [ho.unique ho']
    exact ⟨a, rfl, hR⟩

variable [DecidableEq P]

/-- A new block. -/
theorem meets_alloc {f : P → Prog P B β} (ha : Affords stops h₀ A cells.length)
    (hf : ∀ p, Meets stops h₀ ((p, b) :: cells) (f p) Q) :
    Meets stops h₀ cells (alloc A b >>= f) Q := by
  have hcell : Meets stops h₀ cells (alloc A b)
      fun p (cells' : List (P × B)) => cells' = (p, b) :: cells := by
    intro h ho
    rw [alloc]
    rcases hm : A.malloc h with _ | p
    · refine ⟨fun _ _ he => (nomatch he), fun e he => ?_⟩
      rw [← Except.error.inj he]
      exact ha.resolve_right fun hroom => hroom cells h ho le_rfl hm
    · refine ⟨fun q h' he => ?_, fun e he => nomatch he⟩
      obtain ⟨rfl, rfl⟩ := (Prod.mk.injEq ..).mp (Except.ok.inj he)
      exact ⟨_, ho.alloc (A.fresh h p hm), rfl⟩
  exact hcell.bind fun p cells' he => he ▸ hf p

/-- A new block where there is room for it. -/
theorem meets_malloc {f : Option P → Prog P B β} (hr : HasRoom h₀ A cells.length)
    (hf : ∀ p, Meets stops h₀ ((p, b) :: cells) (f (some p)) Q) :
    Meets stops h₀ cells (malloc A b >>= f) Q := by
  have hcell : Meets stops h₀ cells (malloc A b)
      fun p? (cells' : List (P × B)) => ∃ p, p? = some p ∧ cells' = (p, b) :: cells := by
    intro h ho
    rw [malloc]
    rcases hm : A.malloc h with _ | p
    · exact absurd hm (hr cells h ho le_rfl)
    · refine ⟨fun q h' he => ?_, fun e he => nomatch he⟩
      obtain ⟨rfl, rfl⟩ := (Prod.mk.injEq ..).mp (Except.ok.inj he)
      exact ⟨_, ho.alloc (A.fresh h p hm), p, rfl, rfl⟩
  refine hcell.bind ?_
  rintro _ _ ⟨p, rfl, rfl⟩
  exact hf p

/-- A block that is owned can be written. -/
theorem meets_store {f : Unit → Prog P B β} (l₁ : List (P × B))
    (hf : Meets stops h₀ (l₁ ++ (p, b') :: l₂) (f ()) Q) :
    Meets stops h₀ (l₁ ++ (p, b) :: l₂) (store p b' >>= f) Q := by
  have hcell : Meets stops h₀ (l₁ ++ (p, b) :: l₂) (store p b')
      fun _ (cells' : List (P × B)) => cells' = l₁ ++ (p, b') :: l₂ := by
    intro h ho
    rw [store, ho.own (p, b) (by simp)]
    refine ⟨fun u h' he => ?_, fun e he => nomatch he⟩
    obtain ⟨-, rfl⟩ := (Prod.mk.injEq ..).mp (Except.ok.inj he)
    exact ⟨_, ho.store, rfl⟩
  exact hcell.bind fun _ cells' he => he ▸ hf

/-- A block that is owned can be given back. -/
theorem meets_free {f : Unit → Prog P B β} (l₁ : List (P × B))
    (hf : Meets stops h₀ (l₁ ++ l₂) (f ()) Q) :
    Meets stops h₀ (l₁ ++ (p, b) :: l₂) (free p >>= f) Q := by
  have hcell : Meets stops h₀ (l₁ ++ (p, b) :: l₂) (free p)
      fun _ (cells' : List (P × B)) => cells' = l₁ ++ l₂ := by
    intro h ho
    rw [free, ho.own (p, b) (by simp)]
    refine ⟨fun u h' he => ?_, fun e he => nomatch he⟩
    obtain ⟨-, rfl⟩ := (Prod.mk.injEq ..).mp (Except.ok.inj he)
    exact ⟨_, ho.free, rfl⟩
  exact hcell.bind fun _ cells' he => he ▸ hf

end Rules

end Heap
