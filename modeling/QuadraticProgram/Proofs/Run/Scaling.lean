import QuadraticProgram.Proofs.Run.Converged
import QuadraticProgram.Proofs.Run.Lockstep
import QuadraticProgram.Proofs.Scaling

/-! # Runs on the scaled objective

Scaling the objective leaves the points, the statuses and the steps alone, because both systems have
one solution up to the scale of the multipliers. The pivot test is the one place where the scale
shows: a pivot is compared to the largest one, and in the changed matrix the columns of the Hessian
are scaled while the unit columns and the constraint rows are not. So the runs agree for as long as
the test judges both systems alike, which it always does without a threshold.
-/
namespace QuadraticProgram
open Matrix

variable {n m : ℕ}

noncomputable def State.scale (c : ℝ) (s : State ℝ n m) : State ℝ n m :=
  { s with
    active := s.active.scale c
    objective := c * s.objective }

theorem State.eq_scale {c : ℝ} {s t : State ℝ n m} (hactive : t.active = s.active.scale c)
    (hobjective : t.objective = c * s.objective)
    (hrest : { t with active := s.active, objective := s.objective } = s) : t = s.scale c := by
  cases t
  subst hactive hobjective
  exact congrArg (State.scale c) hrest

noncomputable def PrimalDual.scale (c : ℝ) (g : PrimalDual ℝ n m) : PrimalDual ℝ n m :=
  ⟨g.point, c • g.multiplier⟩

namespace Problem

variable {c : ℝ} (P : Problem ℝ EReal n m)

theorem start_scale (hc : 0 < c) (g : PrimalDual ℝ n m) :
    State.start (P.scale c) (g.scale c) = (State.start P g).scale c := by
  have hactive : (State.start (P.scale c) (g.scale c)).active =
      (State.start P g).active.scale c := by
    have hmultiplier : ∀ e, (g.scale c).multiplier.get e = c * g.multiplier.get e :=
      get_smul c g.multiplier
    have hstatus : ∀ e, (State.start (P.scale c) (g.scale c)).active.status.get e =
        (State.start P g).active.status.get e := by
      intro e
      rw [State.get_status_start, State.get_status_start, hmultiplier]
      exact Status.seed_mul hc _ _ _ _
    refine ActiveSet.eq_scale hstatus fun e => ?_
    rw [State.get_multiplier_start, State.get_multiplier_start, hstatus, hmultiplier, mul_ite,
      mul_zero]
  exact State.eq_scale hactive (P.objective_scale g.point) rfl

theorem activeAfter_scale (hc : 0 < c) (s : ActiveSet ℝ (n + m)) {d d' : Vector ℝ (n + m)}
    (hd : ∀ e, d'.get e = c * d.get e) (limit : StepLimit ℝ (n + m)) :
    (P.scale c).activeAfter (s.scale c) d' limit = (P.activeAfter s d limit).scale c := by
  have hmultiplier : ∀ e, ((P.scale c).activeAfter (s.scale c) d' limit).multiplier.get e =
      c * (P.activeAfter s d limit).multiplier.get e := by
    intro e
    rw [get_multiplier_activeAfter, get_multiplier_activeAfter, hd,
      (s.rescales_scale c).multiplier, mul_ite, mul_zero]
    congr 1
    ring
  refine ActiveSet.eq_scale (fun e => ?_) hmultiplier
  rw [get_status_activeAfter, get_status_activeAfter, hmultiplier]
  exact Status.followSign_mul hc _ _ _ _

theorem advance_scale (hc : 0 < c) (s : State ℝ n m) {d d' : Direction ℝ (n + m)}
    (hvalue : d'.value = d.value)
    (hmultiplier : ∀ e, d'.multiplier.get e = c * d.multiplier.get e)
    (limit : StepLimit ℝ (n + m)) :
    (P.scale c).advance (s.scale c) d' limit = (P.advance s d limit).scale c := by
  have hactive := P.activeAfter_scale hc s.active hmultiplier limit
  have hobjective := P.objective_scale (c := c)
    (P.pointAfter s.point (onVariables d.value) limit)
  cases d'
  subst hvalue
  exact State.eq_scale hactive hobjective rfl

end Problem

section Step

variable {unit c : ℝ} {S : Analysis n m} {P : Problem ℝ EReal n m} {s t : State ℝ n m}
variable (hunit : 0 ≤ unit) (hS : S.Covers P) (hst : (s.scale c).Alike t)

namespace State

theorem Alike.isSingular_scale_iff (hS : S.Covers P) (hst : (s.scale c).Alike t) (hc : 0 < c) :
    (attempt S (P.scale c) t).IsSingular 0 ↔ (attempt S P s).IsSingular 0 := by
  have hscaled := s.active.rescales_scale c
  have hrescales := P.rescales_scale c
  have hback : (s.active.scale c).Rescales c⁻¹ s.active :=
    ⟨fun e => by rw [hscaled.multiplier, inv_mul_cancel_left₀ hc.ne'], fun _ => Iff.rfl⟩
  -- without a threshold only invertibility counts, and each system is a rescaled one of the other
  rw [isSingular_zero_attempt_iff (hS.scale c), isSingular_zero_attempt_iff hS, hst.active]
  exact not_congr ⟨(hrescales.symm one_ne_zero hc.ne').isUnit_modify (inv_ne_zero one_ne_zero)
    (inv_ne_zero hc.ne') hback (hS.scale c) hS,
    hrescales.isUnit_modify one_ne_zero hc.ne' hscaled hS (hS.scale c)⟩

theorem Alike.isSingular_scale_iff_of_free {S : Analysis n 0} {P : Problem ℝ EReal n 0}
    {s t : State ℝ n 0} (hS : S.Covers P) (hst : (s.scale c).Alike t) (hc : 0 < c)
    (hfree : ∀ e, s.active.status.get e = .inactive) :
    (attempt S (P.scale c) t).IsSingular unit ↔ (attempt S P s).IsSingular unit := by
  rw [Attempt.isSingular_iff, Attempt.isSingular_iff]
  change (S.factorize (S.modify (S.assemble (P.scale c)) t.active.status)).IsSingular unit ↔ _
  rw [hst.active]
  exact hS.isSingular_factorize_scale_iff hc unit hfree

include hunit hS hst

theorem Alike.solution_scale (ha : ¬ (attempt S P s).IsSingular unit)
    (hb : ¬ (attempt S (P.scale c) t).IsSingular unit) :
    (attempt S (P.scale c) t).solution = scaleRows c (attempt S P s).solution := by
  have hz := solves_attempt hunit hS ha
  have hz' := solves_attempt hunit (hS.scale c) hb
  have hinvertible := isUnit_modify_of_not_isSingular hunit (hS.scale c) hb
  rw [Analysis.Solves, hst.value, hst.active] at hz'
  rw [hst.active] at hinvertible
  have hscaled := (P.rescales_scale c).solves (s.active.rescales_scale c)
    (get_onVariables_scaleRows c _) (get_onRows_scaleRows c _) hS (hS.scale c)
    (one_smul ℝ s.value.get).symm (fun _ _ => (one_mul _).symm) hz
  -- the scaled solution solves the same system, which has only one
  have hget := vecMul_injective_of_isUnit hinvertible (hz'.trans hscaled.symm)
  exact vector_ext fun e => congrFun hget e

theorem Alike.direction_scale (ha : ¬ (attempt S P s).IsSingular unit)
    (hb : ¬ (attempt S (P.scale c) t).IsSingular unit) :
    (attempt S (P.scale c) t).direction = (P.scale c).direction s.value (s.active.scale c)
      (scaleRows c (attempt S P s).solution) := by
  rw [← hst.solution_scale hunit hS ha hb]
  have hvalue : t.value = s.value := hst.value
  have hactive : t.active = s.active.scale c := hst.active
  rw [← hvalue, ← hactive]
  rfl

theorem Alike.limit_scale (hc : 0 < c) (ha : ¬ (attempt S P s).IsSingular unit)
    (hb : ¬ (attempt S (P.scale c) t).IsSingular unit) :
    (attempt S (P.scale c) t).limit = (attempt S P s).limit := by
  have hvalue : t.value = s.value := hst.value
  have hactive : t.active = s.active.scale c := hst.active
  have hproposals : candidates P.lower P.upper t.value t.active
      (attempt S (P.scale c) t).direction =
        candidates P.lower P.upper s.value s.active (attempt S P s).direction := by
    apply vector_ext
    intro e
    obtain ⟨hd, hδ⟩ := P.direction_scale c s.value s.active (attempt S P s).solution e
    rw [get_candidates, get_candidates, hst.direction_scale hunit hS ha hb, hd, hδ, hvalue,
      hactive, (s.active.rescales_scale c).multiplier]
    exact candidate?_mul hc _ _ _ _ _ _ _
  exact congrArg stepLimit hproposals

theorem Alike.advanced_scale (hc : 0 < c) (ha : ¬ (attempt S P s).IsSingular unit)
    (hb : ¬ (attempt S (P.scale c) t).IsSingular unit) :
    (attempt S (P.scale c) t).advanced = (attempt S P s).advanced.scale c := by
  change (P.scale c).advance t (attempt S (P.scale c) t).direction
    (attempt S (P.scale c) t).limit = _
  rw [hst.advance_eq, hst.limit_scale hunit hS hc ha hb, hst.direction_scale hunit hS ha hb]
  exact P.advance_scale hc s
    (vector_ext fun e => (P.direction_scale c s.value s.active (attempt S P s).solution e).1)
    (fun e => (P.direction_scale c s.value s.active (attempt S P s).solution e).2) _

theorem Alike.iterate_scale (hc : 0 < c)
    (hjudged : (attempt S (P.scale c) t).IsSingular unit ↔ (attempt S P s).IsSingular unit) :
    ((iterate unit S P s).scale c).Alike (iterate unit S (P.scale c) t) := by
  refine Attempt.alike_next (f := State.scale c) (fun _ _ _ _ => rfl) hst hjudged fun ha => ?_
  have hb := hjudged.not.mpr ha
  exact ⟨hst.limit_scale hunit hS hc ha hb, hst.advanced_scale hunit hS hc ha hb⟩

end State

end Step

section Runs

variable {unit c : ℝ} {S : Analysis n m} {P : Problem ℝ EReal n m}

/-- After so many iterations the pivot test judges the systems of both runs alike. -/
def JudgedAlike (unit : ℝ) (S : Analysis n m) (c : ℝ) (P : Problem ℝ EReal n m)
    (g : PrimalDual ℝ n m) (k : ℕ) : Prop :=
  (attempt S (P.scale c) (stateAfter unit S (P.scale c) (g.scale c) k)).IsSingular unit ↔
    (attempt S P (stateAfter unit S P g k)).IsSingular unit

/-- Scaling the objective scales the multipliers and changes nothing else, for as long as the pivot
test judges the systems of both runs alike. The answers agree when no system is found singular. The
test never tells the runs apart without a threshold, nor on a problem without rows while nothing is
held. -/
theorem scale_run (hunit : 0 ≤ unit) (hS : S.Covers P) (hc : 0 < c) (g : PrimalDual ℝ n m) :
    (∀ rule, (P.scale c).analyze rule = P.analyze rule) ∧
      (∀ k, (∀ j < k, JudgedAlike unit S c P g j) →
        ((stateAfter unit S P g k).scale c).Alike
          (stateAfter unit S (P.scale c) (g.scale c) k)) ∧
      (∀ budget, let s := solveFrom unit S P g budget
        let t := solveFrom unit S (P.scale c) (g.scale c) budget
        ((∀ j < s.iteration, JudgedAlike unit S c P g j) → (s.scale c).Alike t) ∧
          (s.outcome ≠ .singular → t.outcome ≠ .singular → t = s.scale c)) ∧
      (∀ k, JudgedAlike 0 S c P g k) ∧
      ∀ k, m = 0 → (∀ j ≤ k, ∀ e, (stateAfter unit S P g j).active.status.get e = .inactive) →
        JudgedAlike unit S c P g k := by
  let R : State ℝ n m → State ℝ n m → Prop := fun s t => (s.scale c).Alike t
  have hdone : ∀ s t, R s t → t.done = s.done := fun _ _ hst => hst.done
  have hstart : R (State.start P g) (State.start (P.scale c) (g.scale c)) := by
    change ((State.start P g).scale c).Alike _
    rw [P.start_scale hc]
    exact .refl _
  have hstates : ∀ k, (∀ j < k, JudgedAlike unit S c P g j) →
      R (stateAfter unit S P g k) (stateAfter unit S (P.scale c) (g.scale c) k) :=
    fun k hjudged => related_stateAfter hstart fun j hj hst =>
      hst.iterate_scale hunit hS hc (hjudged j hj)
  refine ⟨P.analyze_scale hc.ne', hstates, fun budget => ⟨fun hjudged => ?_, fun hs ht => ?_⟩,
    fun k => ?_, fun k hrows hfree => ?_⟩
  · exact related_solveFrom hdone fun k hk =>
      hstates k fun j hj => hjudged j (Nat.lt_of_lt_of_le hj hk)
  · refine (related_of_regular hdone hstart (fun _ _ hst ha hb => ?_) hs ht).eq hs
    exact hst.iterate_scale hunit hS hc (iff_of_false hb ha)
  · have hstate : R (stateAfter 0 S P g k) (stateAfter 0 S (P.scale c) (g.scale c) k) :=
      related_stateAfter hstart fun _ _ hst =>
        hst.iterate_scale le_rfl hS hc (hst.isSingular_scale_iff hS hc)
    exact hstate.isSingular_scale_iff hS hc
  · subst hrows
    -- the states agree up to `k` because the systems before were uniform as well
    induction k using Nat.strongRecOn with
    | ind k ih =>
      have hstate := hstates k fun j hj => ih j hj fun i hi => hfree i (hi.trans hj.le)
      exact hstate.isSingular_scale_iff_of_free hS hc (hfree k le_rfl)

end Runs

section Edge

open Problem

/-- The program `½ (x² + y²) + x` for `0 ≤ x`. -/
noncomputable def Problem.edge : Problem ℝ EReal 2 0 where
  hessian := Mat.ofFn fun i j => if i = j then 1 else 0
  linear := Vector.ofFn fun i => if i = 0 then 1 else 0
  constraints := Mat.ofFn fun j _ => j.elim0
  lower := Vector.ofFn fun e => if e = 0 then 0 else ⊥
  upper := Vector.ofFn fun _ => ⊤
  ordered e := by
    refine decide_eq_false (not_lt.mpr ?_)
    rw [get_ofFn, get_ofFn]
    exact le_top

noncomputable def PrimalDual.edge : PrimalDual ℝ 2 0 :=
  ⟨Vector.ofFn fun _ => 0, Vector.ofFn fun e => if e = 0 then -1 else 0⟩

theorem Problem.bounds_edge (e : Fin (2 + 0)) :
    edge.lower.get e = (if e = 0 then 0 else ⊥) ∧ edge.upper.get e = ⊤ :=
  ⟨get_ofFn _ e, get_ofFn _ e⟩

theorem Problem.proper_edge : edge.Proper := by
  intro e
  rw [(bounds_edge e).1, (bounds_edge e).2]
  refine ⟨?_, bot_ne_top.symm⟩
  split_ifs
  · exact EReal.zero_ne_top
  · exact bot_ne_top

theorem Problem.posDef_hessian_edge : edge.hessian.toMatrix.PosDef := by
  have hone : edge.hessian.toMatrix = 1 :=
    Matrix.ext fun i j => (Mat.entry_ofFn _ i j).trans (Matrix.one_apply).symm
  rw [hone]
  exact Matrix.PosDef.one

theorem get_multiplier_edge (e : Fin (2 + 0)) :
    PrimalDual.edge.multiplier.get e = if e = 0 then -1 else 0 := get_ofFn _ e

theorem get_status_edge (e : Fin (2 + 0)) :
    (State.start edge .edge).active.status.get e = if e = 0 then .lower else .inactive := by
  by_cases he : e = 0
  · have hfits : Status.lower.Admits (edge.lower.get e) (edge.upper.get e)
        (PrimalDual.edge.multiplier.get e) := by
      rw [get_multiplier_edge, (bounds_edge e).1, if_pos he, if_pos he]
      exact ⟨by norm_num, EReal.zero_ne_bot⟩
    have hne : PrimalDual.edge.multiplier.get e ≠ 0 := by
      rw [get_multiplier_edge, if_pos he]
      norm_num
    rw [State.get_status_start, if_pos he]
    exact hfits.seed_eq (proper_edge e).1 (proper_edge e).2 hne _
  · rw [if_neg he]
    refine State.get_status_start_of_multiplier_eq_zero ?_ ?_
    · rw [(bounds_edge e).1, (bounds_edge e).2, if_neg he]
      exact bot_ne_top
    · rw [get_multiplier_edge, if_neg he]

theorem entry_modify_edge {Q : Problem ℝ EReal 2 0} {S : Analysis 2 0} (hS : S.Covers Q) {c : ℝ}
    (hQ : ∀ i j, Q.hessian.entry i j = if i = j then c else 0) (p q : Fin (2 + 0)) :
    (S.modify (S.assemble Q) (State.start edge .edge).active.status).entry p q =
      if p = q then (if q = 0 then 1 else c) else 0 := by
  refine Fin.addCases (fun i => ?_) (fun j => j.elim0) q
  refine Fin.addCases (fun i' => ?_) (fun j => j.elim0) p
  -- only the column of the held variable is replaced
  have hpinned : (pinned? (State.start edge .edge).active.status (i.castAdd 0) : Option ℝ) =
      if i = 0 then some 1 else none := by
    rw [pinned?_castAdd, get_status_edge]
    by_cases hi : i = 0
    · simp [hi]
    · simp [hi]
  by_cases hi : i = 0
  · rw [Analysis.entry_modify, hpinned, if_pos hi]
    subst hi
    exact mul_one _
  · rw [hS.entry_modify_of_kept (hpinned.trans (if_neg hi)),
      Mat.entry_bordered_castAdd_castAdd, hQ]
    exact if_congr Iff.rfl (if_neg hi).symm rfl

section Pivots

variable {Q : Problem ℝ EReal 2 0} {c : ℝ} (hc : 0 < c)
variable (hQ : ∀ i j, Q.hessian.entry i j = if i = j then c else 0) {s : State ℝ 2 0}
variable (hs : s.active.status = (State.start edge .edge).active.status)
include hc hQ hs

theorem pivotSize_edge (k : Fin (2 + 0)) :
    (attempt (Q.analyze .natural) Q s).factorization.pivotSize k = if k = 0 then 1 else c := by
  let S := Q.analyze .natural
  have hS := covers_analyze Q .natural
  have hentry : ∀ p q, (S.modify (S.assemble Q) s.active.status).entry p q =
      if p = q then (if q = 0 then 1 else c) else 0 := by
    rw [hs]
    exact entry_modify_edge hS hQ
  have hupper : ∀ p q, q < p → (S.modify (S.assemble Q) s.active.status).entry p q = 0 :=
    fun p q hqp => by rw [hentry, if_neg hqp.ne']
  have hdiagonal := entry_triangle_factorize_of_upper (hS.padded (S.assemble Q) s.active.status)
    hupper k
  rw [hentry, if_pos rfl] at hdiagonal
  rw [Factorization.pivotSize_real]
  refine (congrArg abs hdiagonal).trans (abs_of_pos ?_)
  split_ifs
  · exact one_pos
  · exact hc

/-- With the bound held the pivots are one and the curvature, so a curvature below the threshold
counts as zero. -/
theorem isSingular_edge_iff :
    (attempt (Q.analyze .natural) Q s).IsSingular (1 / 2 ^ 52) ↔
      min 1 c ≤ 1 / 2 ^ 51 * max 1 c := by
  let F := (attempt (Q.analyze .natural) Q s).factorization
  have hpivot : ∀ k, F.pivotSize k = if k = 0 then 1 else c := pivotSize_edge hc hQ hs
  have hlargest : largest F.pivotSize = max 1 c := by
    apply le_antisymm
    · refine largest_le_iff.mpr ⟨le_max_of_le_left zero_le_one, fun k => ?_⟩
      rw [hpivot]
      split_ifs
      · exact le_max_left 1 c
      · exact le_max_right 1 c
    · exact max_le ((hpivot 0).ge.trans (le_largest F.pivotSize 0))
        ((hpivot 1).ge.trans (le_largest F.pivotSize 1))
  have hthreshold : F.threshold (1 / 2 ^ 52) = 1 / 2 ^ 51 * max 1 c := by
    rw [Factorization.threshold_real, hlargest]
    norm_num
  rw [Attempt.isSingular_iff, Factorization.isSingular_real_iff, min_le_iff, ← hthreshold]
  constructor
  · rintro ⟨k, hk⟩
    rw [hpivot] at hk
    split_ifs at hk
    · exact Or.inl hk
    · exact Or.inr hk
  · rintro (h | h)
    · exact ⟨0, (hpivot 0).le.trans h⟩
    · exact ⟨1, (hpivot 1).le.trans h⟩

end Pivots

theorem entry_hessian_edge (i j : Fin 2) : edge.hessian.entry i j = if i = j then 1 else 0 :=
  Mat.entry_ofFn _ i j

theorem entry_hessian_scale_edge (c : ℝ) (i j : Fin 2) :
    (edge.scale c).hessian.entry i j = if i = j then c else 0 := by
  rw [Problem.scale, Mat.entry_map, entry_hessian_edge, mul_ite, mul_one, mul_zero]

theorem status_start_scale_edge {c : ℝ} (hc : 0 < c) :
    (State.start (edge.scale c) (PrimalDual.edge.scale c)).active.status =
      (State.start edge .edge).active.status := by
  rw [edge.start_scale hc]
  rfl

theorem not_isSingular_edge : ¬ (attempt (edge.analyze .natural) edge
    (State.start edge .edge)).IsSingular (1 / 2 ^ 52) := by
  rw [isSingular_edge_iff one_pos entry_hessian_edge rfl]
  norm_num

theorem solveFrom_edge : let s := solveFrom (1 / 2 ^ 52) (edge.analyze .natural) edge .edge 1
    s.outcome = .success ∧ s.iteration = 1 := by
  have hpoint : PrimalDual.edge.point.get = 0 := funext fun i => get_ofFn _ i
  have hmultiplier : ∀ e, (State.start edge .edge).active.multiplier.get e =
      if e = 0 then -1 else 0 := by
    intro e
    rw [State.get_multiplier_start, get_status_edge, get_multiplier_edge]
    by_cases he : e = 0
    · simp [he]
    · simp [he]
  have hbalance : ∀ i, edge.balance PrimalDual.edge.point
      (State.start edge .edge).active.multiplier i = 0 := by
    intro i
    have hlinear : edge.linear.get i = if i = 0 then 1 else 0 := get_ofFn _ i
    have hrows : ((fun j : Fin 0 => (State.start edge .edge).active.multiplier.get (j.natAdd 2)) ᵥ*
        edge.constraints.toMatrix) i = 0 := by
      rw [toMatrix_vecMul_apply, Fin.sum_univ_zero]
    rw [balance_eq_tilt, tilt_apply, hpoint, hmultiplier, hlinear, mulVec_zero, hrows]
    by_cases hi : i = 0
    · simp [hi]
    · simp [hi]
  have hheld : ∀ e, ((State.start edge .edge).active.status.get e).IsActive →
      (((edge.valuesAt PrimalDual.edge.point).get e : ℝ) : EReal) =
        ((State.start edge .edge).active.status.get e).boundOn (edge.lower.get e)
          (edge.upper.get e) := by
    intro e he
    rw [get_status_edge] at he ⊢
    by_cases hzero : e = 0
    · rw [get_valuesAt_eq_dotProduct, hpoint, dotProduct_zero, if_pos hzero]
      exact ((bounds_edge e).1.trans (if_pos hzero)).symm
    · exact absurd (if_neg hzero) he
  obtain ⟨⟨hsuccess, hiteration, -⟩, -⟩ := solveFrom_of_balanced (by positivity) proper_edge
    posDef_hessian_edge.isHermitian (covers_analyze edge .natural) not_isSingular_edge hbalance
    hheld one_pos
  exact ⟨hsuccess, hiteration⟩

theorem scale_run_edge :
    let unit : ℝ := 1 / 2 ^ 52
    let S := edge.analyze .natural
    0 ≤ unit ∧ S.Covers edge ∧ (0 : ℝ) < 2 ∧
      (solveFrom unit S edge .edge 1).outcome = .success ∧
      solveFrom unit S (edge.scale 2) (PrimalDual.edge.scale 2) 1 =
        (solveFrom unit S edge .edge 1).scale 2 := by
  intro unit S
  have hunit : 0 ≤ unit := by positivity
  have hS := covers_analyze edge .natural
  obtain ⟨hsuccess, hiteration⟩ := solveFrom_edge
  obtain ⟨hanalysis, -, hanswers, -⟩ := scale_run hunit hS two_pos .edge
  have hregular : ¬ (attempt S (edge.scale 2)
      (State.start (edge.scale 2) (PrimalDual.edge.scale 2))).IsSingular unit := by
    have hscaled : S = (edge.scale 2).analyze .natural := (hanalysis .natural).symm
    rw [hscaled, isSingular_edge_iff two_pos (entry_hessian_scale_edge 2)
      (status_start_scale_edge two_pos)]
    norm_num
  have halike := (hanswers 1).1 fun j hj => by
    obtain rfl : j = 0 := Nat.lt_one_iff.mp (hiteration ▸ hj)
    exact iff_of_false hregular not_isSingular_edge
  refine ⟨hunit, hS, two_pos, hsuccess, halike.eq fun hsingular => ?_⟩
  exact Outcome.noConfusion (hsuccess.symm.trans hsingular)

theorem isSingular_scaled_edge :
    let c : ℝ := 1 / 2 ^ 60
    (attempt ((edge.scale c).analyze .natural) (edge.scale c)
      (State.start (edge.scale c) (PrimalDual.edge.scale c))).IsSingular (1 / 2 ^ 52) := by
  intro c
  have hc : 0 < c := by positivity
  rw [isSingular_edge_iff hc (entry_hessian_scale_edge c) (status_start_scale_edge hc)]
  norm_num [c]

/-- A held variable keeps its unit pivot, so a small enough scale makes the curvature of the other
one count as zero. -/
theorem singular_of_scaled_edge :
    let unit : ℝ := 1 / 2 ^ 52
    let c : ℝ := 1 / 2 ^ 60
    edge.hessian.toMatrix.PosDef ∧ 0 < c ∧
      (solveFrom unit (edge.analyze .natural) edge .edge 1).outcome = .success ∧
      (solveFrom unit ((edge.scale c).analyze .natural) (edge.scale c) (PrimalDual.edge.scale c)
        1).outcome = .singular := by
  intro unit c
  have hc : 0 < c := by positivity
  refine ⟨posDef_hessian_edge, hc, solveFrom_edge.1, ?_⟩
  exact congrArg State.outcome (Attempt.next_of_isSingular isSingular_scaled_edge _)

end Edge

end QuadraticProgram
