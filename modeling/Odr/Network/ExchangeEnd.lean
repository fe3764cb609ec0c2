/-
# The end of an exchange

Every exchange comes to an end, and when it does the client has been handed the time.
-/
import Odr.Network.ExchangeRun
import Odr.Network.Exhaustion

namespace Odr

open DistanceVector Exhaustion Flooding Lab

namespace Network

variable {k : ℕ} {nw : Network k} {s d : Fin k} {client : UnAddr} {σ : Net k}
  {tr : List (Net k × Label k)} {lvl : Fin k → ℤ}

/-! ## The outcome -/

/-- While the route is sought something is in flight. -/
lemma Seeking.wire_ne_nil (h : nw.Seeking s d client lvl tr σ) (hconn : nw.graph.Connected)
    (hsd : s ≠ d) : σ.wire ≠ [] := by
  intro hnil
  have hq : Quiet σ := by
    intro f hf
    rw [hnil] at hf
    simp at hf
  obtain ⟨a, ha, had⟩ := exists_adj_of_connected hconn h.flood.source h.flood.dest
    (h.flood.closed hq)
  obtain ⟨e, he, -⟩ := h.flood.exists_entry hq ha had (Ne.symm hsd)
  rcases h.flood.reply ⟨e, he⟩ with ⟨t, ht, -⟩ | hrd
  · rw [hnil] at ht
    simp at ht
  · exact hrd h.waiting

/-- The phase in which nothing is in flight is the last one. -/
lemma Phase.served_of_empty (hP : nw.Phase s d client tr σ) (hconn : nw.graph.Connected)
    (hsd : s ≠ d) (hempty : σ.wire = []) : ∃ text, nw.Served s d client text tr σ := by
  have hdata : dataWire σ = [] := by
    rw [dataWire, hempty]
    rfl
  cases hP with
  | seeking lvl h => exact absurd hempty (h.wire_ne_nil hconn hsd)
  | asking h =>
    obtain ⟨t, x, hone, -⟩ := h.token
    rw [hdata] at hone
    simp at hone
  | replying text h =>
    obtain ⟨t, x, hone, -⟩ := h.token
    rw [hdata] at hone
    simp at hone
  | served text h => exact ⟨text, h⟩

/-- An exchange with nothing left in flight is over. -/
lemma served_of_empty {nw : NamedNetwork k} (hk : k ≤ 10) (hconn : nw.graph.Connected) (hsd : s ≠ d)
    (hifs : ∀ n, (nw.ifs n).Nodup) (hr : nw.system.Run (nw.ExchangeStep s d) tr σ)
    (hreq : nw.latestRequest tr s ≠ none) (hempty : σ.wire = []) :
    ∃ client text, Asked tr s client ∧ nw.Served s d client text tr σ := by
  rcases phase_of_run hk hsd hifs hr with ⟨-, hnone, -⟩ | ⟨client, hasked, hP⟩
  · exact absurd hnone hreq
  · obtain ⟨text, h⟩ := hP.served_of_empty hconn hsd hempty
    exact ⟨client, text, hasked, h⟩

instance (σ : Net k) (f : Transit k) : Decidable (nw.Current σ f) :=
  inferInstanceAs (Decidable (∀ o ∈ nw.offerOf σ f, _))

instance (σ : Net k) (l : Label k) : Decidable (nw.ExchangeStep s d σ l) :=
  match l with
  | .request _ _ _ => inferInstanceAs (Decidable (_ ∧ _))
  | .deliver i _ => inferInstanceAs (Decidable (∀ f ∈ σ.wire[i]?, _))
  | .lose _ => .isFalse id
  | .tick _ => .isTrue trivial

/-- The first of three nodes in a row gets the time of the last. -/
def lineExchange : List (Label 3) :=
  lineDiscovery ++ [.deliver 0 (answering []), .deliver 0 (answering [49, 50]),
    .deliver 0 (answering []), .deliver 0 (answering [])]

/-- The request and the reply take at most nine links each. -/
lemma Phase.dataSteps_le (hP : nw.Phase s d client tr σ) : dataSteps tr ≤ 18 := by
  cases hP with
  | seeking lvl h =>
    have hsteps := h.steps
    omega
  | asking h =>
    obtain ⟨t, x, -, -, -, -, -, -, hx, hn⟩ := h.token
    omega
  | replying text h =>
    obtain ⟨t, x, -, -, -, -, -, -, hx, -, hn⟩ := h.token
    omega
  | served text h => exact h.steps

lemma dataSteps_le {nw : NamedNetwork k} (hk : k ≤ 10) (hsd : s ≠ d) (hifs : ∀ n, (nw.ifs n).Nodup)
    (hr : nw.system.Run (nw.ExchangeStep s d) tr σ) : dataSteps tr ≤ 18 := by
  rcases phase_of_run hk hsd hifs hr with ⟨-, -, -, h⟩ | ⟨client, -, hP⟩
  · omega
  · exact hP.dataSteps_le

/-- The steps of a sequence up to an index. -/
def history (σ : ℕ → Net k) (l : ℕ → Label k) (n : ℕ) : List (Net k × Label k) :=
  (List.range n).map fun i => (σ i, l i)

section Infinite

variable {σ : ℕ → Net k} {l : ℕ → Label k}

lemma history_succ (n : ℕ) : history σ l (n + 1) = history σ l n ++ [(σ n, l n)] := by
  rw [history, List.range_succ, List.map_append]
  rfl

lemma run_history {ok : Net k → Label k → Prop} (h0 : (σ 0).Initial)
    (hok : ∀ i, ok (σ i) (l i))
    (hstep : ∀ i, nw.system.step (σ i) (l i) = some (σ (i + 1))) (n : ℕ) :
    nw.system.Run ok (history σ l n) (σ n) := by
  induction n with
  | zero => exact .start h0
  | succ n ih =>
    rw [history_succ]
    exact ih.snoc (hok n) (hstep n)

variable {nw : NamedNetwork k} (hk : k ≤ 10) (hsd : s ≠ d) (hifs : ∀ n, (nw.ifs n).Nodup)
  (h0 : (σ 0).Initial) (hok : ∀ i, nw.ExchangeStep s d (σ i) (l i))
  (hstep : ∀ i, nw.system.step (σ i) (l i) = some (σ (i + 1)))
include hk hsd hifs h0 hok hstep

/-- There is one request. -/
lemma exists_no_request : ∃ N, ∀ i, N ≤ i → ∀ n c req, l i ≠ .request n c req := by
  by_cases hreq : ∃ i n c req, l i = .request n c req
  · obtain ⟨i, n, c, req, hi⟩ := hreq
    refine ⟨i + 1, fun j hj n' c' req' hj' => ?_⟩
    have hoki := hok i
    have hokj := hok j
    rw [hi] at hoki
    rw [hj'] at hokj
    obtain rfl : n = s := hoki.1
    -- after the request the broadcast number of `s` is no longer the first
    rcases phase_of_run hk hsd hifs (run_history h0 hok hstep j) with ⟨-, hnone, -⟩ | ⟨_, -, hP⟩
    · have hin : (nw.requestAt n (σ i, l i)).isSome := by
        rw [hi]
        simp [requestAt]
      have hmem : (σ i, l i) ∈ history σ l j :=
        List.mem_map.mpr ⟨i, List.mem_range.mpr (by omega), rfl⟩
      rw [latestRequest, Transition.System.lastOf, List.getLast?_eq_none_iff] at hnone
      rw [List.filterMap_eq_nil_iff.mp hnone _ hmem] at hin
      simp at hin
    · exact hP.talk.taken (hokj.2.1 n)
  · push Not at hreq
    exact ⟨0, fun i _ n c req => hreq i n c req⟩

/-- DATA is delivered finitely often. -/
lemma exists_no_data : ∃ N, ∀ j, N ≤ j → ∀ i io f, l j = .deliver i io →
    (σ j).wire[i]? = some f → f.pack.type ≠ .data := by
  have hle := fun n => dataSteps_le hk hsd hifs (run_history h0 hok hstep n)
  have hmono : ∀ n, dataSteps (history σ l n) ≤ dataSteps (history σ l (n + 1)) := by
    intro n
    rw [history_succ, dataSteps, dataSteps, List.countP_append]
    exact Nat.le_add_right _ _
  obtain ⟨N, hN⟩ := eventually_not_descend (f := fun n => 18 - dataSteps (history σ l n))
    wellFounded_lt fun n => by
      have h₁ := hle n
      have h₂ := hmono n
      omega
  refine ⟨N, fun j hj i io f hl hf hty => hN j hj ?_⟩
  have h₁ := hle (j + 1)
  have h₂ : dataSteps (history σ l j ++ [(σ j, .deliver i io)]) = dataSteps (history σ l j) + 1 :=
    dataSteps_snoc_of_data hf hty
  rw [← hl, ← history_succ] at h₂
  omega

end Infinite

/-- **Every exchange comes to an end.** In a run of an exchange at most 18 DATA packets are
delivered, and in an infinite sequence of steps of an exchange only time passes from some step
on. -/
theorem exchange_finishes {nw : NamedNetwork k} (hk : k ≤ 10) (hsd : s ≠ d)
    (hifs : ∀ n, (nw.ifs n).Nodup) :
    (∀ tr σ, nw.system.Run (nw.ExchangeStep s d) tr σ → dataSteps tr ≤ 18) ∧
    ∀ (σ : ℕ → Net k) (l : ℕ → Label k), (σ 0).Initial →
      (∀ i, nw.ExchangeStep s d (σ i) (l i)) →
      (∀ i, nw.system.step (σ i) (l i) = some (σ (i + 1))) →
      ∃ N, ∀ i, N ≤ i → ∃ x, l i = .tick x := by
  refine ⟨fun tr σ hr => dataSteps_le hk hsd hifs hr, fun σ l h0 hok hstep => ?_⟩
  obtain ⟨N₁, h₁⟩ := exists_no_request hk hsd hifs h0 hok hstep
  obtain ⟨N₂, h₂⟩ := exists_no_data hk hsd hifs h0 hok hstep
  obtain ⟨N₃, h₃⟩ := (control_dies_out nw).2 (fun i => σ (N₁ + i)) (fun i => l (N₁ + i))
    (fun i => hstep (N₁ + i)) fun i => h₁ (N₁ + i) (by omega)
  refine ⟨N₁ + N₂ + N₃, fun i hi => ?_⟩
  have hstepi := steps_of_step (hstep i)
  generalize hl : l i = lab, σ (i + 1) = σ' at hstepi
  cases hstepi with
  | request n c req => exact absurd hl (h₁ i (by omega) n c req)
  | lose j f hf =>
    have hbad := hok i
    rw [hl] at hbad
    exact absurd hbad id
  | tick x => exact ⟨x, rfl⟩
  | deliver j io f hf =>
    exfalso
    have hdata := h₂ i (by omega) j io f hl hf
    have hmem := mem_wire_of_getElem hf
    have hcontrol := h₃ (i - N₁) (by omega)
    rw [show N₁ + (i - N₁) = i by omega] at hcontrol
    -- a copy in flight is an RREQ, an RREP or DATA
    rcases phase_of_run hk hsd hifs (run_history h0 hok hstep i) with ⟨hinit, -⟩ | ⟨c, -, hP⟩
    · rw [hinit.wire] at hmem
      simp at hmem
    · obtain ⟨m, -, -, hp⟩ := hP.talk.sent f hmem
      rcases hty : f.pack.type with _ | _ | _ | n
      · exact hcontrol ⟨j, io, f, hl, hf, Or.inl hty⟩
      · exact hcontrol ⟨j, io, f, hl, hf, Or.inr hty⟩
      · exact hdata hty
      · simp [Placed, hty] at hp

theorem exchange_finishes_line : dataSteps (line.system.trace start lineExchange) ≤ 18 := by
  have hrun : line.system.Run (line.ExchangeStep 0 2) (line.system.trace start lineExchange)
      (after line lineExchange) := run_after (by decide +kernel) (by decide +kernel)
  exact (exchange_finishes (by decide) (by decide) (by decide +kernel)).1 _ _ hrun

end Network

end Odr
