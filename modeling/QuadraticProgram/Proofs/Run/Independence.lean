import QuadraticProgram.Proofs.Exact.Singularity
import QuadraticProgram.Proofs.Run.Anchored
import QuadraticProgram.Proofs.Run.Shrinking
import QuadraticProgram.Proofs.Run.Success

/-! # Independent working sets

In a seated state the held entries do not move, and a free entry that limits a step does. So its
normal is no combination of the normals of the held entries, and when it joins them they stay
linearly independent, whatever other rows there are. With positive curvature the system of the next
iteration is then invertible.
-/
namespace QuadraticProgram
open Matrix

variable {n m : ℕ} {unit : ℝ} {S : Analysis n m} {P : Problem ℝ EReal n m}
variable {g : PrimalDual ℝ n m} {s : State ℝ n m}

def State.held (s : State ℝ n m) : Set (Fin (n + m)) := {e | (s.active.status.get e).IsActive}

def State.Independent (P : Problem ℝ EReal n m) (s : State ℝ n m) : Prop :=
  LinearIndepOn ℝ P.normal s.held

namespace State

theorem Coherent.direction_ne_zero_of_index (hP : P.Proper) {e : Fin (n + m)}
    (hfree : s.active.status.get e = .inactive) (he : (attempt S P s).limit.index = some e) :
    (attempt S P s).direction.value.get e ≠ 0 := by
  obtain ⟨c, hproposes, -⟩ := proposes_of_index hP he
  refine hproposes.direction_ne_zero.resolve_right fun hne => ?_
  exact hne (get_multiplier_direction_of_inactive S P s hfree)

section Held

variable (hP : P.Proper) (hs : s.Coherent P)
include hP hs

theorem Coherent.held_advanced_of_joins {e : Fin (n + m)}
    (hfree : s.active.status.get e = .inactive) (he : (attempt S P s).limit.index = some e) :
    (attempt S P s).advanced.held = insert e s.held := by
  ext e'
  by_cases hindex : (attempt S P s).limit.index = some e'
  · obtain rfl : e = e' := Option.some.inj (he.symm.trans hindex)
    exact iff_of_true ((hs.isActive_advanced_of_index hP he).mpr (not_not.mpr hfree))
      (Set.mem_insert e _)
  · have hne : e' ≠ e := fun heq => hindex (heq ▸ he)
    have hinsert : e' ∈ insert e s.held ↔ e' ∈ s.held :=
      Set.mem_insert_iff.trans (or_iff_right hne)
    exact (hs.isActive_advanced_of_ne_index hP hindex).trans hinsert.symm

theorem Coherent.held_advanced_subset
    (hnone : ∀ e, s.active.status.get e = .inactive → (attempt S P s).limit.index ≠ some e) :
    (attempt S P s).advanced.held ⊆ s.held := by
  intro e he
  by_cases hfree : s.active.status.get e = .inactive
  · exact (hs.isActive_advanced_of_ne_index hP (hnone e hfree)).mp he
  · exact hfree

end Held

section Solved

variable (hP : P.Proper) (hS : S.Covers P) (hs : s.Seated P)
  (hz : S.Solves P s.value s.active (attempt S P s).solution)
include hP hS hs hz

/-- The entry that joins the working set is independent of it. -/
theorem Seated.normal_notMem_span {e : Fin (n + m)} (hfree : s.active.status.get e = .inactive)
    (he : (attempt S P s).limit.index = some e) :
    P.normal e ∉ Submodule.span ℝ (P.normal '' s.held) := by
  intro hspan
  refine Coherent.direction_ne_zero_of_index hP hfree he ?_
  rw [← Coherent.normal_dotProduct_solution]
  refine dotProduct_eq_zero_of_mem_span (fun e' he' => ?_) hspan
  rw [Coherent.normal_dotProduct_solution]
  exact hs.direction_eq_zero hP hS hz he'

theorem Seated.independent_advanced (hindependent : s.Independent P) :
    (attempt S P s).advanced.Independent P := by
  have hcoherent := hs.anchored.coherent
  by_cases hjoins : ∃ e, s.active.status.get e = .inactive ∧
      (attempt S P s).limit.index = some e
  · obtain ⟨e, hfree, he⟩ := hjoins
    rw [Independent, hcoherent.held_advanced_of_joins hP hfree he]
    exact LinearIndepOn.insert hindependent (hs.normal_notMem_span hP hS hz hfree he)
  -- a full step or a release adds nothing to the working set
  · refine LinearIndepOn.mono hindependent (hcoherent.held_advanced_subset hP fun e hfree he => ?_)
    exact hjoins ⟨e, hfree, he⟩

end Solved

theorem Independent.iterate (hunit : 0 ≤ unit) (hP : P.Proper) (hS : S.Covers P) (hs : s.Seated P)
    (hindependent : s.Independent P) : (iterate unit S P s).Independent P :=
  iterate_cases (motive := State.Independent P) (fun _ _ _ _ => hindependent) fun hregular =>
    hs.independent_advanced hP hS (solves_of_not_isFatal hunit hS hregular) hindependent

end State

section HalfLine

open Problem

noncomputable def PrimalDual.onRow : PrimalDual ℝ 1 1 :=
  ⟨Vector.ofFn fun _ => 1, Vector.ofFn fun _ => 0⟩

theorem Problem.feasible_onRow : halfLine.Feasible PrimalDual.onRow.point := by
  intro e
  refine Fin.addCases (fun i => ?_) (fun j => ?_) e
  · rw [(bounds_halfLine_castAdd i).1, (bounds_halfLine_castAdd i).2, get_valuesAt_castAdd,
      PrimalDual.onRow, get_ofFn]
    exact ⟨by exact_mod_cast zero_le_one, le_top⟩
  · rw [(bounds_halfLine_natAdd j).1, (bounds_halfLine_natAdd j).2, get_valuesAt_halfLine,
      PrimalDual.onRow, get_ofFn]
    exact ⟨le_rfl, le_rfl⟩

end HalfLine

namespace Reached

theorem independent (hunit : 0 ≤ unit) (hP : P.Proper) (hS : S.Covers P)
    (hg : P.Feasible g.point) (hheld : (State.start P g).HeldOnBounds P)
    (hstart : (State.start P g).Independent P) (hs : Reached unit S P g s) : s.Independent P := by
  induction hs with
  | start => exact hstart
  | iterate ht ih => exact ih.iterate hunit hP hS (ht.seated hunit hP hS hg hheld)

/-- From a feasible point with the held entries on their bounds and with independent normals, a run
on a strictly convex problem keeps them independent and never meets a singular system. -/
theorem working_set_independent (hunit : 0 ≤ unit) (hP : P.Proper)
    (hH : P.hessian.toMatrix.PosDef) (hS : S.Covers P) (hg : P.Feasible g.point)
    (hheld : (State.start P g).HeldOnBounds P)
    (hstart : LinearIndepOn ℝ P.normal
      {e | ((State.start P g).active.status.get e).IsActive}) :
    (∀ s, Reached unit S P g s →
      LinearIndepOn ℝ P.normal {e | (s.active.status.get e).IsActive} ∧
        IsUnit (S.modify (S.assemble P) s.active.status).toMatrix) ∧
      (∀ s, Reached 0 S P g s → ¬ (attempt S P s).IsSingular 0) ∧
      ∀ budget, (solveFrom 0 S P g budget).outcome ≠ .singular := by
  have hregular : ∀ s, Reached 0 S P g s → ¬ (attempt S P s).IsSingular 0 := by
    intro s hs
    exact Problem.not_isSingular_attempt_of_linearIndependent hH hS
      (hs.independent le_rfl hP hS hg hheld hstart)
  refine ⟨fun s hs => ?_, hregular, fun budget => ?_⟩
  · have hindependent := hs.independent hunit hP hS hg hheld hstart
    exact ⟨hindependent, Problem.isUnit_modify_of_linearIndependent hH hS hindependent⟩
  · intro houtcome
    rcases (reached_solveFrom 0 S P g budget).outcome_cases with h | h | ⟨t, ht, hfails⟩
    · exact Outcome.noConfusion (houtcome.symm.trans h)
    · exact Outcome.noConfusion (houtcome.symm.trans h)
    · rw [houtcome] at hfails
      exact hregular t ht hfails

theorem working_set_independent_onRow :
    let S := Problem.halfLine.analyze .minimumDegree
    let s := State.start Problem.halfLine .onRow
    let t := QuadraticProgram.iterate 0 S Problem.halfLine s
    Problem.halfLine.Proper ∧ Problem.halfLine.hessian.toMatrix.PosDef ∧
      S.Covers Problem.halfLine ∧ Problem.halfLine.Feasible PrimalDual.onRow.point ∧
      s.HeldOnBounds Problem.halfLine ∧
      LinearIndepOn ℝ Problem.halfLine.normal {e | (s.active.status.get e).IsActive} ∧
      LinearIndepOn ℝ Problem.halfLine.normal {e | (t.active.status.get e).IsActive} ∧
      (solveFrom 0 S Problem.halfLine .onRow 3).outcome ≠ .singular := by
  intro S s t
  have hS := covers_analyze Problem.halfLine .minimumDegree
  have hH := Problem.posDef_hessian_halfLine
  have hheld : s.HeldOnBounds Problem.halfLine :=
    State.heldOnBounds_start fun e => get_ofFn _ _
  have hstart := linearIndepOn_halfLine (g := .onRow) (get_ofFn _ _)
  have hkept := working_set_independent le_rfl Problem.proper_halfLine hH hS
    Problem.feasible_onRow hheld hstart
  exact ⟨Problem.proper_halfLine, hH, hS, Problem.feasible_onRow, hheld, hstart,
    (hkept.1 t (.iterate .start)).1, hkept.2.2 3⟩

end Reached

end QuadraticProgram
