/-
# Ghosts of the copies in flight

Some properties of a packet in flight concern its history, which the packet does not carry: the
request that it goes back to, or the nodes it has passed.  `ghosts` reads such a value for every
copy in flight off the trace of a run: a `Ghost` says which value the copies that a request sets
off have, and how it changes when a delivery sends a packet on.
-/
import Odr.Lib.Lockstep
import Odr.Network.Step

namespace Odr

/-- A value that is kept for every copy in flight. -/
structure Ghost (k : ℕ) (G : Type*) where
  /-- The value of the copies that a request of the node sets off. -/
  new : Fin k → OdrReq → G
  /-- The value of the copies that the receiver of a copy sends. -/
  pass : Transit k → G → G

namespace Network

variable {k : ℕ} {nw : Network k} {G : Type*} {T : Ghost k G}

/-- The values after a step. -/
def ghostStep (nw : Network k) (T : Ghost k G) (gs : List G) (x : Net k × Label k) : List G :=
  match x.2 with
  | .request n client req =>
      gs ++ (nw.transmit (n, client) (nw.request x.1 n client req).sent).map fun _ => T.new n req
  | .deliver i io =>
      match x.1.wire[i]?, gs[i]? with
      | some f, some g =>
          gs.eraseIdx i ++
            (nw.transmit f.cause (nw.receive x.1 f io).sent).map fun _ => T.pass f g
      | _, _ => gs
  | .lose i => gs.eraseIdx i
  | .tick _ => gs

/-- The values of the copies in flight after a run. -/
def ghosts (nw : Network k) (T : Ghost k G) (tr : List (Net k × Label k)) : List G :=
  tr.foldl (nw.ghostStep T) []

lemma ghosts_snoc (tr : List (Net k × Label k)) (x : Net k × Label k) :
    nw.ghosts T (tr ++ [x]) = nw.ghostStep T (nw.ghosts T tr) x := by
  rw [ghosts, List.foldl_append]
  rfl

/-- A relation between copies and their values that the copies of a request have and that a
delivery hands on holds after a step if it holds before. -/
lemma forall₂_ghosts_step {R : Transit k → G → Prop} {σ σ' : Net k} {l : Label k}
    {tr : List (Net k × Label k)} (hs : nw.Steps σ l σ')
    (h : List.Forall₂ R σ.wire (nw.ghosts T tr))
    (hnew : ∀ n client req, l = .request n client req →
      ∀ t ∈ nw.transmit (n, client) (nw.request σ n client req).sent, R t (T.new n req))
    (hpass : ∀ i io f g, l = .deliver i io → σ.wire[i]? = some f → R f g →
      ∀ t ∈ nw.transmit f.cause (nw.receive σ f io).sent, R t (T.pass f g)) :
    List.Forall₂ R σ'.wire (nw.ghosts T (tr ++ [(σ, l)])) := by
  rw [ghosts_snoc]
  cases hs with
  | request n client req => exact Lockstep.append h (hnew n client req rfl)
  | deliver i io f hf =>
    obtain ⟨g, hg, hR⟩ := Lockstep.exists_ghost h hf
    simp only [ghostStep, hf, hg]
    exact Lockstep.append (Lockstep.eraseIdx h i) (hpass i io f g rfl hf hR)
  | lose i f hf => exact Lockstep.eraseIdx h i
  | tick d => exact h

/-- Every copy in flight has a value. -/
theorem forall₂_ghosts {ok : Net k → Label k → Prop} {tr : List (Net k × Label k)} {σ : Net k}
    (hr : nw.system.Run ok tr σ) : List.Forall₂ (fun _ _ => True) σ.wire (nw.ghosts T tr) :=
  hr.invariant (I := fun tr σ => List.Forall₂ (fun _ _ => True) σ.wire (nw.ghosts T tr))
    (fun σ h => by rw [h.wire]; exact .nil) fun _ _ _ _ _ ih _ hs =>
      forall₂_ghosts_step (steps_of_step hs) ih (fun _ _ _ _ _ _ => trivial)
        fun _ _ _ _ _ _ _ _ _ => trivial

end Network

end Odr
