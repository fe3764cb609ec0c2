/-
# Runs of a transition system

A transition system here is a set of initial states and a partial step function on labels.
`System.Run` is a run from an initial state all of whose steps satisfy a condition `ok` on
the state before the step and its label; it carries its *trace*, the list of these pairs,
from which the history of the run can be read without ghost state.

`Run.invariant` is the induction principle for properties of the trace and the state
reached, `Reach.invariant` the one for properties of the state alone, `Run.along_iff` the one for
the condition on the steps under which a property holds after each of them, and `run_exec` turns
the execution of a concrete list of labels into a run.
-/
import Mathlib

namespace Transition

/-- A transition system with states `S` and labels `L`. -/
structure System (S L : Type*) where
  /-- The initial states. -/
  init : S → Prop
  /-- The step of a label, `none` where the label is not enabled. -/
  step : S → L → Option S

namespace System

variable {S L : Type*} (M : System S L)

/-- The runs of a system whose steps satisfy `ok`, with their trace. -/
inductive Run (ok : S → L → Prop) : List (S × L) → S → Prop
  | start {s : S} (h : M.init s) : Run ok [] s
  | snoc {tr : List (S × L)} {s s' : S} {l : L} (hr : Run ok tr s) (hok : ok s l)
      (hs : M.step s l = some s') : Run ok (tr ++ [(s, l)]) s'

/-- The states that some run reaches. -/
def Reach (ok : S → L → Prop) (s : S) : Prop := ∃ tr, M.Run ok tr s

variable {M} {ok : S → L → Prop}

/-- A property of the trace and the state that holds at the start and is preserved by every
step of a run holds of every run. -/
theorem Run.invariant {I : List (S × L) → S → Prop} (hinit : ∀ s, M.init s → I [] s)
    (hstep : ∀ tr s l s', M.Run ok tr s → I tr s → ok s l → M.step s l = some s' →
      I (tr ++ [(s, l)]) s') {tr : List (S × L)} {s : S} (h : M.Run ok tr s) : I tr s := by
  induction h with
  | start h => exact hinit _ h
  | snoc hr hok hs ih => exact hstep _ _ _ _ hr ih hok hs

lemma Run.reach {tr : List (S × L)} {s : S} (h : M.Run ok tr s) : M.Reach ok s := ⟨tr, h⟩

/-- A property of the state that holds at the start and is preserved by every step from a
reachable state holds of every reachable state. -/
theorem Reach.invariant {I : S → Prop} (hinit : ∀ s, M.init s → I s)
    (hstep : ∀ s l s', M.Reach ok s → I s → ok s l → M.step s l = some s' → I s')
    {s : S} (h : M.Reach ok s) : I s := by
  obtain ⟨tr, hr⟩ := h
  exact Run.invariant (I := fun _ s => I s) hinit
    (fun _ s l s' hr hI => hstep s l s' hr.reach hI) hr

/-- A run whose steps meet a condition meets every weaker one. -/
lemma Run.mono {ok' : S → L → Prop} (hle : ∀ s l, ok s l → ok' s l) {tr : List (S × L)}
    {s : S} (h : M.Run ok tr s) : M.Run ok' tr s := by
  induction h with
  | start h => exact .start h
  | snoc _ hok hs ih => exact ih.snoc (hle _ _ hok) hs

lemma Reach.mono {ok' : S → L → Prop} (hle : ∀ s l, ok s l → ok' s l) {s : S}
    (h : M.Reach ok s) : M.Reach ok' s := by
  obtain ⟨tr, hr⟩ := h
  exact ⟨tr, hr.mono hle⟩

/-- Every step of a run is allowed. -/
lemma Run.ok_of_mem {tr : List (S × L)} {s : S} (h : M.Run ok tr s) {x : S × L} (hx : x ∈ tr) :
    ok x.1 x.2 := by
  induction h with
  | start => simp at hx
  | snoc _ hok _ ih =>
    rcases List.mem_append.mp hx with hx | hx
    · exact ih hx
    · obtain rfl := List.mem_singleton.mp hx
      exact hok

/-- A run is carried over to another system whose steps mirror its own. -/
theorem Run.map {S' L' : Type*} {N : System S' L'} {ok' : S' → L' → Prop} {f : S → S'}
    {g : S → L → L'} (hinit : ∀ s, M.init s → N.init (f s))
    (hstep : ∀ s l s', ok s l → M.step s l = some s' →
      ok' (f s) (g s l) ∧ N.step (f s) (g s l) = some (f s'))
    {tr : List (S × L)} {s : S} (h : M.Run ok tr s) :
    N.Run ok' (tr.map fun x => (f x.1, g x.1 x.2)) (f s) := by
  induction h with
  | start h => exact .start (hinit _ h)
  | snoc _ hok hs ih =>
    obtain ⟨hok', hs'⟩ := hstep _ _ _ hok hs
    rw [List.map_append]
    exact ih.snoc hok' hs'

/-! ## Properties of every step of a trace -/

/-- `P` holds of every step of a trace and of the part of the trace before it. -/
def Along {A : Type*} (P : List A → A → Prop) (tr : List A) : Prop :=
  ∀ pre x, pre ++ [x] <+: tr → P pre x

lemma along_nil {A : Type*} (P : List A → A → Prop) : Along P [] := by
  intro pre x h
  simp at h

lemma along_snoc {A : Type*} {P : List A → A → Prop} {tr : List A} {x : A} :
    Along P (tr ++ [x]) ↔ Along P tr ∧ P tr x := by
  constructor
  · intro h
    exact ⟨fun pre y hp => h pre y (hp.trans (List.prefix_append tr [x])),
      h tr x List.prefix_rfl⟩
  · rintro ⟨h, hx⟩ pre y hp
    rcases List.prefix_concat_iff.mp hp with heq | hp
    · obtain ⟨rfl, hyx⟩ := List.append_inj' heq rfl
      obtain rfl : y = x := by simpa using hyx
      exact hx
    · exact h pre y hp

/-- A property of the steps alone holds along a trace if it holds of every step. -/
lemma along_iff_forall {A : Type*} {Q : A → Prop} {tr : List A} :
    Along (fun _ x => Q x) tr ↔ ∀ x ∈ tr, Q x := by
  constructor
  · intro h x hx
    obtain ⟨pre, post, rfl⟩ := List.append_of_mem hx
    exact h pre x (by simp)
  · exact fun h pre x hp => h x (hp.subset (by simp))

lemma Along.last {A : Type*} {P : List A → A → Prop} {tr : List A} (h : Along P tr)
    (hne : tr ≠ []) : P tr.dropLast (tr.getLast hne) :=
  h _ _ (by rw [List.dropLast_append_getLast])

/-- The last value that `f` gives on a trace. -/
def lastOf {A B : Type*} (f : A → Option B) (tr : List A) : Option B := (tr.filterMap f).getLast?

lemma lastOf_snoc {A B : Type*} (f : A → Option B) (tr : List A) (x : A) :
    lastOf f (tr ++ [x]) = (f x).or (lastOf f tr) := by
  rw [lastOf, List.filterMap_append, List.getLast?_append, lastOf]
  rcases h : f x with _ | b
  · simp [h]
  · simp [h]

/-- Two properties that agree at every step of a run agree along the run. -/
theorem Run.along_congr {P Q : List (S × L) → S × L → Prop}
    (h : ∀ tr s l s', M.Run ok tr s → ok s l → M.step s l = some s' →
      (P tr (s, l) ↔ Q tr (s, l)))
    {tr : List (S × L)} {s : S} (hr : M.Run ok tr s) : Along P tr ↔ Along Q tr := by
  induction hr with
  | start => exact iff_of_true (along_nil _) (along_nil _)
  | snoc hr hok hs ih => rw [along_snoc, along_snoc, ih, h _ _ _ _ hr hok hs]

/-- **When a property holds after every step.** Let `I` be an invariant, preserved by the steps
that meet the condition `C`, which implies `P`, and let `P` fail after the other steps.  Then `P`
holds after every step of a run if and only if every step of the run meets `C`. -/
theorem Run.along_iff {I P : List (S × L) → S → Prop} {C : List (S × L) → S × L → Prop}
    (hinit : ∀ s, M.init s → I [] s)
    (hstep : ∀ tr s l s', M.Run ok tr s → I tr s → ok s l → M.step s l = some s' →
      C tr (s, l) → I (tr ++ [(s, l)]) s')
    (himp : ∀ tr s, M.Run ok tr s → I tr s → P tr s)
    (hfail : ∀ tr s l s', M.Run ok tr s → I tr s → ok s l → M.step s l = some s' →
      P (tr ++ [(s, l)]) s' → C tr (s, l))
    {tr : List (S × L)} {s : S} (hr : M.Run ok tr s) :
    Along (fun pre x => ∀ s', M.step x.1 x.2 = some s' → P (pre ++ [x]) s') tr ↔ Along C tr := by
  suffices h : (Along (fun pre x => ∀ s', M.step x.1 x.2 = some s' → P (pre ++ [x]) s') tr ↔
      Along C tr) ∧ (Along C tr → I tr s) from h.1
  induction hr with
  | start h => exact ⟨iff_of_true (along_nil _) (along_nil _), fun _ => hinit _ h⟩
  | @snoc tr s s' l hr hok hs ih =>
    obtain ⟨hiff, hI⟩ := ih
    have hnext : Along C (tr ++ [(s, l)]) → I (tr ++ [(s, l)]) s' := by
      intro h
      obtain ⟨h, hC⟩ := along_snoc.mp h
      exact hstep tr s l s' hr (hI h) hok hs hC
    refine ⟨⟨fun h => ?_, fun h => ?_⟩, hnext⟩
    · obtain ⟨h, hP⟩ := along_snoc.mp h
      have h := hiff.mp h
      exact along_snoc.mpr ⟨h, hfail tr s l s' hr (hI h) hok hs (hP s' hs)⟩
    · refine along_snoc.mpr ⟨hiff.mpr (along_snoc.mp h).1, fun s₁ hs₁ => ?_⟩
      obtain rfl := Option.some_injective _ (hs.symm.trans hs₁)
      exact himp _ _ (hr.snoc hok hs) (hnext h)

/-! ## Executing a list of labels -/

variable (M)

/-- The state after a list of labels. -/
def exec : S → List L → Option S
  | s, [] => some s
  | s, l :: ls => (M.step s l).bind fun s' => exec s' ls

/-- The trace of a list of labels. -/
def trace : S → List L → List (S × L)
  | _, [] => []
  | s, l :: ls => (s, l) :: ((M.step s l).map fun s' => trace s' ls).getD []

variable {M}

lemma exec_append (s : S) (ls ls' : List L) :
    M.exec s (ls ++ ls') = (M.exec s ls).bind fun s' => M.exec s' ls' := by
  induction ls generalizing s with
  | nil => rfl
  | cons l ls ih =>
    rw [List.cons_append, exec, exec, Option.bind_assoc]
    exact Option.bind_congr fun s₁ _ => ih s₁

lemma trace_snoc {s s' : S} {ls : List L} (hs : M.exec s ls = some s') (l : L) :
    M.trace s (ls ++ [l]) = M.trace s ls ++ [(s', l)] := by
  induction ls generalizing s with
  | nil =>
    obtain rfl : s = s' := by simpa [exec] using hs
    rcases h : M.step s l with _ | s₁
    · simp [trace, h]
    · simp [trace, h]
  | cons l' ls ih =>
    rw [exec, Option.bind_eq_some_iff] at hs
    obtain ⟨s₁, h₁, h₂⟩ := hs
    simp [trace, h₁, ih h₂]

/-- Executing labels from the end of a run, each of them allowed, prolongs the run. -/
theorem run_exec {tr : List (S × L)} {s s' : S} {ls : List L} (hr : M.Run ok tr s)
    (hok : ∀ x ∈ M.trace s ls, ok x.1 x.2) (hs : M.exec s ls = some s') :
    M.Run ok (tr ++ M.trace s ls) s' := by
  induction ls generalizing tr s with
  | nil =>
    obtain rfl : s = s' := by simpa [exec] using hs
    simpa [trace] using hr
  | cons l ls ih =>
    rw [exec, Option.bind_eq_some_iff] at hs
    obtain ⟨s₁, h₁, h₂⟩ := hs
    have htr : M.trace s (l :: ls) = (s, l) :: M.trace s₁ ls := by simp [trace, h₁]
    rw [htr] at hok ⊢
    have hr₁ := hr.snoc (hok (s, l) (by simp)) h₁
    simpa using ih hr₁ (fun x hx => hok x (by simp [hx])) h₂

end System

end Transition
