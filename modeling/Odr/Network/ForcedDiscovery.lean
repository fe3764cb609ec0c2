/-
# Forced discovery

A client can ask for a forced discovery, in which no relay should answer from its table.  The
wish does not travel: `rreq.force_discovery` is always zero, and a relay consults the flag that
the last request of its own clients has left in `forced_discovery`.  So the wish is honoured
exactly as long as this flag happens to agree with it wherever it matters
(`forced_discovery_iff`).
-/
import Odr.Network.Ghost
import Odr.Network.Lab
import Odr.Network.Relay

namespace Odr

open Lab
open Transition.System (Along along_snoc)

namespace Network

variable {k : ℕ} {nw : Network k} {tr : List (Net k × Label k)} {σ : Net k}

/-- The request that a packet goes back to. -/
def origin : Ghost k OdrReq where
  new _ req := req
  pass _ req := req

/-- If the step delivers an RREQ that is new at a relay, no RREP is sent if the request behind it
asked for a forced discovery, and one is sent if it did not and the relay has an entry for the
destination. -/
def HonoursForced (nw : Network k) (pre : List (Net k × Label k)) (x : Net k × Label k) : Prop :=
  ∀ i io f req, x.2 = .deliver i io → x.1.wire[i]? = some f →
    (nw.ghosts origin pre)[i]? = some req → nw.Considers f → nw.Exceeds x.1 f →
    (req.forcedDiscovery = 1 → ∀ g ∈ (nw.receive x.1 f io).sent, g.pack.type ≠ .rrep) ∧
      (req.forcedDiscovery = 0 → nw.KnowsDest x.1 f →
        ∃ g ∈ (nw.receive x.1 f io).sent, g.pack.type = .rrep)

/-- If the step delivers an RREQ that is new at a relay with an entry for the destination, the
relay's own flag agrees with the request behind the RREQ. -/
def AgreesForced (nw : Network k) (pre : List (Net k × Label k)) (x : Net k × Label k) : Prop :=
  ∀ i io f req, x.2 = .deliver i io → x.1.wire[i]? = some f →
    (nw.ghosts origin pre)[i]? = some req → nw.Considers f → nw.Exceeds x.1 f →
    nw.KnowsDest x.1 f →
    (req.forcedDiscovery = 1 → (x.1.node f.dst).forcedDiscovery = 1) ∧
      (req.forcedDiscovery = 0 → (x.1.node f.dst).forcedDiscovery ≠ 1)

/-- A relay that answers from its table sends an RREP. -/
lemma exists_rrep_of_answers (hwf : nw.Wf σ) {f : Transit k} (hf : f ∈ σ.wire) (io : UnixIo)
    (ha : nw.AnswersFromTable σ f) : ∃ g ∈ (nw.receive σ f io).sent, g.pack.type = .rrep := by
  rcases rreq_relay_cases io ha.1 with ⟨hle, -⟩ | ⟨-, hnot, -⟩ | ⟨-, -, e, he, hsent⟩
  · exact absurd ha.2.1 hle
  · exact absurd ha hnot
  · obtain ⟨-, -, -, j, hj, -, hidx, -⟩ := linked_of_findKey_learned hwf hf he
    rw [hsent]
    exact ⟨⟨e.nextHopHwaddr, j.sllAddr, e.ifNo, f.pack.tableReply e⟩,
      List.mem_append_left _ (mem_llFrames.mpr ⟨j, hj, hidx, rfl⟩), rfl⟩

/-- An RREQ that a relay considers is answered with an RREP from the table only. -/
lemma answers_of_rrep {f : Transit k} {io : UnixIo} (hc : nw.Considers f) {g : Frame}
    (hg : g ∈ (nw.receive σ f io).sent) (hty : g.pack.type = .rrep) :
    nw.AnswersFromTable σ f := by
  rcases rreq_relay_cases io hc with ⟨-, hsent, -⟩ | ⟨-, -, hsent, -⟩ | ⟨ha, -⟩
  · rw [hsent] at hg
    simp at hg
  · rw [hsent] at hg
    rw [pack_of_mem_bcastFrames hg] at hty
    exact absurd (hc.1.symm.trans hty) (by simp)
  · exact ha

lemma honoursForced_iff (hwf : nw.Wf σ) (l : Label k) :
    nw.HonoursForced tr (σ, l) ↔ nw.AgreesForced tr (σ, l) := by
  constructor
  · intro h i io f req hl hf hreq hc hnew hknows
    obtain ⟨h₁, h₀⟩ := h i io f req hl hf hreq hc hnew
    refine ⟨fun hone => ?_, fun hzero hforced => ?_⟩
    · by_contra hforced
      obtain ⟨g, hg, hty⟩ := exists_rrep_of_answers hwf (mem_wire_of_getElem hf) io
        ⟨hc, hnew, hforced, hknows⟩
      exact h₁ hone g hg hty
    · obtain ⟨g, hg, hty⟩ := h₀ hzero hknows
      exact (answers_of_rrep hc hg hty).2.2.1 hforced
  · intro h i io f req hl hf hreq hc hnew
    refine ⟨fun hone g hg hty => ?_, fun hzero hknows => ?_⟩
    · obtain ⟨-, -, hforced, hknows⟩ := answers_of_rrep hc hg hty
      exact hforced ((h i io f req hl hf hreq hc hnew hknows).1 hone)
    · exact exists_rrep_of_answers hwf (mem_wire_of_getElem hf) io
        ⟨hc, hnew, (h i io f req hl hf hreq hc hnew hknows).2 hzero, hknows⟩

/-- **When forced discovery is honoured.** In every run, relays answer no RREQ of a request with
`forced_discovery = 1` from their tables and all those of requests with `forced_discovery = 0`
that they can, if and only if, whenever an RREQ is new at a relay with an entry for its
destination, the flag that the relay's own last client has left there is `1` if that of the
request is `1` and not `1` if that of the request is `0`. -/
theorem forced_discovery_iff (hr : nw.system.Run (fun _ _ => True) tr σ) :
    Along nw.HonoursForced tr ↔ Along nw.AgreesForced tr :=
  hr.along_congr fun _ _ l _ hr _ _ => honoursForced_iff (wf_of_reach hr.reach) l

/-- A request on a line for its other end; the RREQ gets there, and the RREP half way back.  Then
a client forces a discovery. -/
def lineForced : List (Label 3) :=
  asks 0 0 2 :: List.replicate 3 (.deliver 0 (answering [])) ++ [forces 0 1 2]

theorem forced_discovery_line :
    Along line.HonoursForced (line.system.trace start lineForced) ↔
      Along line.AgreesForced (line.system.trace start lineForced) :=
  forced_discovery_iff (run_after (by decide +kernel) fun _ _ => trivial)

/-- The node in the middle answers the RREQ of the forced discovery. -/
theorem forced_discovery_ignored :
    ¬∀ (nw : Network 3) tr σ, nw.system.Run (fun _ _ => True) tr σ → Along nw.HonoursForced tr := by
  intro h
  have hal : Along line.HonoursForced
      (line.system.trace start (lineForced ++ [.deliver 1 (answering [])])) :=
    h line _ _ (run_after (by decide +kernel) fun _ _ => trivial)
  rw [trace_after (by decide +kernel), along_snoc] at hal
  have hcopy : ∃ f ∈ (after line lineForced).wire[1]?,
      ∃ req ∈ (line.ghosts origin (line.system.trace start lineForced))[1]?,
      line.Considers f ∧ line.Exceeds (after line lineForced) f ∧ req.forcedDiscovery = 1 ∧
      ∃ g ∈ (line.receive (after line lineForced) f (answering [])).sent,
        g.pack.type = .rrep := by decide +kernel
  obtain ⟨f, hf, req, hreq, hc, hnew, hone, g, hg, hty⟩ := hcopy
  exact (hal.2 1 _ f req rfl hf hreq hc hnew).1 hone g hg hty

end Network

end Odr
