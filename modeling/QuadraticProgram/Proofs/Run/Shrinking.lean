import QuadraticProgram.Proofs.Kernel
import QuadraticProgram.Proofs.MaximalStep
import QuadraticProgram.Proofs.Run.Feasibility

/-! # The residual along a run

A step moves every multiplier along its direction, also the one that is set to zero because its
entry limits the step, and as long as the variables are within their bounds it moves the point along
its direction too. The Newton direction takes the balance of the gradient to zero, so what is left
of the balance after a step is what is left of the step.
-/
namespace QuadraticProgram
open Matrix

variable {n m : ℕ} {unit : ℝ} {S : Analysis n m} {P : Problem ℝ EReal n m}
variable {g : PrimalDual ℝ n m} {s : State ℝ n m}

namespace State.Coherent

theorem get_multiplier_advanced (hP : P.Proper) (hs : s.Coherent P) (S : Analysis n m)
    (e : Fin (n + m)) :
    (attempt S P s).advanced.active.multiplier.get e =
      s.active.multiplier.get e +
        (attempt S P s).limit.length * (attempt S P s).direction.multiplier.get e := by
  rw [active_advanced, Problem.get_multiplier_activeAfter]
  by_cases hindex : (attempt S P s).limit.index = some e
  · obtain ⟨c, hproposes, hlength, -⟩ := proposes_of_index hP hindex
    rw [if_pos hindex, hlength]
    exact (hproposes.multiplier_eq_zero (hs.admits e)
      (get_multiplier_direction_of_inactive S P s)).symm
  · rw [if_neg hindex]

theorem normal_dotProduct_solution (S : Analysis n m) (s : State ℝ n m) (e : Fin (n + m)) :
    P.normal e ⬝ᵥ (onVariables (attempt S P s).solution).get =
      (attempt S P s).direction.value.get e :=
  (P.get_valuesAt_eq_dotProduct _ e).symm

theorem index_eq_none_of_direction_eq_zero (hP : P.Proper)
    (h : ∀ e, (attempt S P s).direction.value.get e = 0 ∧
      (attempt S P s).direction.multiplier.get e = 0) : (attempt S P s).limit.index = none := by
  refine Option.eq_none_iff_forall_ne_some.mpr fun e he => ?_
  obtain ⟨c, hproposes, -⟩ := proposes_of_index hP he
  rcases hproposes.direction_ne_zero with hne | hne
  · exact hne (h e).1
  · exact hne (h e).2

section Solved

variable (hP : P.Proper) (hH : P.hessian.toMatrix.IsSymm) (hs : s.Coherent P) (hS : S.Covers P)
  (hz : S.Solves P s.value s.active (attempt S P s).solution)
include hH hs hS hz

theorem tilt_direction (i : Fin n) :
    P.tilt (onVariables (attempt S P s).solution).get (attempt S P s).direction.multiplier.get i =
      -P.balance s.point s.active.multiplier i :=
  Problem.tilt_direction hH hS hz (fun _ => (hs.admits _).multiplier_eq_zero) i

include hP

theorem balance_advanced (hx : P.VariablesHold s.value) (i : Fin n) :
    P.balance (attempt S P s).advanced.point (attempt S P s).advanced.active.multiplier i =
      (1 - (attempt S P s).limit.length) * P.balance s.point s.active.multiplier i := by
  rw [Problem.balance_add_smul _ (hs.get_point_advanced hP hx S)
    (hs.get_multiplier_advanced hP S), hs.tilt_direction hH hS hz]
  ring

/-- From a balanced state with the held entries on their bounds there is nowhere to go. -/
theorem direction_eq_zero_of_balanced
    (hunit : IsUnit (S.modify (S.assemble P) s.active.status).toMatrix)
    (hbalance : ∀ i, P.balance s.point s.active.multiplier i = 0)
    (hheld : ∀ e, (s.active.status.get e).IsActive → ((s.value.get e : ℝ) : EReal) =
      (s.active.status.get e).boundOn (P.lower.get e) (P.upper.get e)) (e : Fin (n + m)) :
    (attempt S P s).direction.value.get e = 0 ∧
      (attempt S P s).direction.multiplier.get e = 0 := by
  obtain ⟨hpoint, hmultiplier⟩ :
      (onVariables (attempt S P s).solution).get = 0 ∧
        (attempt S P s).direction.multiplier.get = 0 := by
    refine Problem.eq_of_isUnit hH hS hunit (fun e he => ?_)
      (fun e he => get_multiplier_direction_of_inactive S P s he) fun i => ?_
    · have hfull := hs.full_step_of_isActive hP hS hz he
      rw [← hheld e he] at hfull
      have hfull := EReal.coe_injective hfull
      rw [dotProduct_zero, normal_dotProduct_solution]
      linarith
    · rw [hs.tilt_direction hH hS hz, hbalance]
      simp [Problem.tilt]
  refine ⟨?_, congrFun hmultiplier e⟩
  rw [← normal_dotProduct_solution, hpoint, dotProduct_zero]

end Solved

end State.Coherent

/-- Without rows and with the unit Hessian a free variable steps to the minimiser. -/
theorem direction_of_free {P : Problem ℝ EReal n 0} {S : Analysis n 0} {s : State ℝ n 0}
    (hH : P.hessian.toMatrix = 1) (hS : S.Covers P)
    (hz : S.Solves P s.value s.active (attempt S P s).solution) (i : Fin n)
    (hi : s.active.status.get (i.castAdd 0) = .inactive) :
    (attempt S P s).direction.value.get (i.castAdd 0) =
      -(s.value.get (i.castAdd 0) + P.linear.get i) := by
  have hsymm : P.hessian.toMatrix.IsSymm := hH ▸ Matrix.isSymm_one
  have hchange := Problem.gradient_change_of_inactive hsymm hS hz hi
  rw [Problem.get_gradient, mulVec_real, vecMul_real, hH, one_mulVec, one_mulVec,
    toMatrix_vecMul_apply, toMatrix_vecMul_apply, Fin.sum_univ_zero, Fin.sum_univ_zero, add_zero,
    add_zero, get_onVariables s.value, ← onVariables_direction, get_onVariables] at hchange
  exact hchange

section Above

open Problem

noncomputable def PrimalDual.above : PrimalDual ℝ 1 0 :=
  ⟨Vector.ofFn fun _ => 1 + 1, Vector.ofFn fun _ => 0⟩

theorem get_value_above (e : Fin (1 + 0)) : (State.start aboveOne .above).value.get e = 2 :=
  (get_valuesAt_castAdd aboveOne _ e).trans ((get_ofFn _ _).trans one_add_one_eq_two)

theorem get_multiplier_above (e : Fin (1 + 0)) : PrimalDual.above.multiplier.get e = 0 :=
  get_ofFn _ _

theorem coherent_above : (State.start aboveOne .above).Coherent aboveOne :=
  State.coherent_start proper_aboveOne _

theorem Problem.within_above (e : Fin (1 + 0)) :
    aboveOne.lower.get e ≤ (aboveOne.valuesAt PrimalDual.above.point).get e ∧
      (aboveOne.valuesAt PrimalDual.above.point).get e ≤ aboveOne.upper.get e := by
  have hvalue : (aboveOne.valuesAt PrimalDual.above.point).get e = 2 := get_value_above e
  rw [hvalue, (bounds_aboveOne e).1, (bounds_aboveOne e).2]
  exact ⟨by exact_mod_cast one_le_two, le_top⟩

theorem Problem.inequalitiesHold_above :
    aboveOne.InequalitiesHold (aboveOne.valuesAt PrimalDual.above.point) := fun e _ =>
  within_above e

theorem not_isFatal_above (rule : ColumnOrder) :
    ¬ (attempt (aboveOne.analyze rule) aboveOne (State.start aboveOne .above)).IsFatal 0 :=
  not_isFatal_aboveOne rule coherent_above

theorem balance_above : aboveOne.balance (State.start aboveOne .above).point
    (State.start aboveOne .above).active.multiplier 0 = 2 := by
  rw [balance_aboveOne, State.point, get_onVariables, get_value_above,
    (coherent_above.admits _).multiplier_eq_zero (get_status_aboveOne get_multiplier_above _),
    add_zero]

/-- The first step aims at the origin. -/
theorem direction_above (rule : ColumnOrder) :
    (attempt (aboveOne.analyze rule) aboveOne (State.start aboveOne .above)).direction.value.get 0 =
      -2 := by
  have hS := covers_analyze aboveOne rule
  have hz := solves_of_not_isFatal le_rfl hS (not_isFatal_above rule)
  have hlinear : aboveOne.linear.get 0 = 0 := get_ofFn _ _
  have hstep := direction_of_free hessian_aboveOne hS hz 0
    (get_status_aboveOne get_multiplier_above 0)
  rw [get_value_above, hlinear, add_zero (2 : ℝ)] at hstep
  exact hstep

/-- It goes half the way, down to the bound. -/
theorem limit_above (rule : ColumnOrder) :
    let a := attempt (aboveOne.analyze rule) aboveOne (State.start aboveOne .above)
    a.limit.index = some 0 ∧ a.limit.length = 1 / 2 ∧ a.limit.kind = some .lowerBound := by
  intro a
  have hproposes : ∀ l δ : ℝ, Proposes ((1 : ℝ) : EReal) ⊤ 2 (-2) l δ .inactive
      ⟨min (1 - 2) 0 / -2, .lowerBound⟩ := fun l δ =>
    .lowerBound rfl (by norm_num) (by norm_num)
  have hcandidate : (candidates aboveOne.lower aboveOne.upper (State.start aboveOne .above).value
      (State.start aboveOne .above).active a.direction).get 0 =
        some ⟨min (1 - 2) 0 / -2, .lowerBound⟩ := by
    rw [get_candidates_eq_some_iff (proper_aboveOne 0).1 (proper_aboveOne 0).2,
      get_status_aboveOne get_multiplier_above, direction_above, get_value_above,
      (bounds_aboveOne 0).1, (bounds_aboveOne 0).2]
    exact hproposes _ _
  obtain ⟨hindex, hlength, hkind, -⟩ := stepLimit_of_unique
    (fun e => Subsingleton.elim (α := Fin 1) e 0) hcandidate ⟨by norm_num, by norm_num⟩
  refine ⟨hindex, hlength.trans ?_, hkind⟩
  norm_num

theorem not_isFatal_stateAfter_above (rule : ColumnOrder) (k : ℕ) :
    ¬ (attempt (aboveOne.analyze rule) aboveOne
      (stateAfter 0 (aboveOne.analyze rule) aboveOne .above k)).IsFatal 0 :=
  not_isFatal_aboveOne rule ((reached_stateAfter 0 _ _ _ k).coherent proper_aboveOne)

/-- There the variable is put onto its bound and comes to be held. -/
theorem stateAfter_one_above (rule : ColumnOrder) :
    let t := stateAfter 0 (aboveOne.analyze rule) aboveOne .above 1
    (t.length = 1 / 2 ∧ t.index = some 0 ∧ t.kind = some .lowerBound ∧ t.done = false) ∧
      t.value.get 0 = 1 ∧ t.active.status.get 0 = .lower ∧ t.active.multiplier.get 0 = 0 := by
  intro t
  let a := attempt (aboveOne.analyze rule) aboveOne (State.start aboveOne .above)
  obtain ⟨hindex, hlength, hkind⟩ := limit_above rule
  have hnext : t = a.advanced := iterate_of_not_isFatal (not_isFatal_above rule)
  have hvalue : a.advanced.value.get 0 = 1 := by
    rw [coherent_above.get_value_advanced proper_aboveOne inequalitiesHold_above.variables,
      get_value_above, hlength, direction_above]
    norm_num
  have hmultiplier : a.advanced.active.multiplier.get 0 = 0 := by
    rw [active_advanced, get_multiplier_activeAfter, if_pos hindex]
  have hstatus : a.advanced.active.status.get 0 = .lower := by
    rw [active_advanced, get_status_activeAfter, ← active_advanced, hmultiplier, if_pos hindex,
      hkind, Status.followSign_zero]
    rfl
  rw [hnext]
  exact ⟨⟨hlength, hindex, hkind, congrArg Option.isNone hindex⟩, hvalue, hstatus, hmultiplier⟩

/-- The second step only takes up the force of the bound, and nothing limits it. -/
theorem index_attempt_above (rule : ColumnOrder) :
    (attempt (aboveOne.analyze rule) aboveOne
      (stateAfter 0 (aboveOne.analyze rule) aboveOne .above 1)).limit.index = none := by
  let t := stateAfter 0 (aboveOne.analyze rule) aboveOne .above 1
  have hS := covers_analyze aboveOne rule
  have ht : t.Coherent aboveOne := (reached_stateAfter 0 _ _ _ 1).coherent proper_aboveOne
  have hz := solves_of_not_isFatal le_rfl hS (not_isFatal_stateAfter_above rule 1)
  obtain ⟨-, hvalue, hstatus, hmultiplier⟩ := stateAfter_one_above rule
  let a := attempt (aboveOne.analyze rule) aboveOne t
  have hstays : a.direction.value.get 0 = 0 := by
    have hheld : (t.active.status.get 0).IsActive := by
      rw [hstatus]
      exact Status.noConfusion
    have hfull := ht.full_step_of_isActive proper_aboveOne hS hz hheld
    rw [hstatus, hvalue] at hfull
    have hfull : 1 + a.direction.value.get 0 = 1 :=
      EReal.coe_eq_one.mp (hfull.trans (bounds_aboveOne 0).1)
    linarith
  have hforce : a.direction.multiplier.get 0 = -1 := by
    have htilt := ht.tilt_direction posDef_hessian_aboveOne.isHermitian hS hz 0
    rw [tilt_aboveOne, balance_aboveOne, ← onVariables_direction, get_onVariables, State.point,
      get_onVariables t.value] at htilt
    have htilt : a.direction.value.get 0 + a.direction.multiplier.get 0 =
      -(t.value.get 0 + t.active.multiplier.get 0) := htilt
    linarith
  refine Option.eq_none_iff_forall_ne_some.mpr fun e he => ?_
  obtain rfl : e = 0 := Subsingleton.elim (α := Fin 1) e 0
  obtain ⟨c, hproposes, -, -⟩ := State.Coherent.proposes_of_index proper_aboveOne he
  rw [hstatus, hforce] at hproposes
  cases hproposes with
  | lower _ hδ => exact absurd hδ neg_one_lt_zero.not_gt

theorem attempts_above (rule : ColumnOrder) (budget : ℕ) :
    let S := aboveOne.analyze rule
    let s := State.start aboveOne .above
    let t := stateAfter 0 S aboveOne .above 1
    attempts 0 S aboveOne (budget + 2) s =
      [(s, attempt S aboveOne s), (t, attempt S aboveOne t)] := by
  intro S s t
  have hrunning : t.done = false := (stateAfter_one_above rule).1.2.2.2
  have hdone : (iterate 0 S aboveOne t).done = true := by
    rw [iterate_of_not_isFatal (not_isFatal_stateAfter_above rule 1)]
    exact congrArg Option.isNone (index_attempt_above rule)
  have hrest : attempts 0 S aboveOne budget (iterate 0 S aboveOne t) = [] := by
    cases budget with
    | zero => rfl
    | succ budget => rw [attempts, if_pos hdone]
  change (s, _) :: (if t.done then [] else (t, _) :: attempts 0 S aboveOne budget
    (iterate 0 S aboveOne t)) = _
  rw [hrunning, hrest]
  rfl

end Above

namespace Reached

theorem balance_iterate (hunit : 0 ≤ unit) (hP : P.Proper) (hH : P.hessian.toMatrix.IsSymm)
    (hS : S.Covers P) (hg : P.VariablesHold (P.valuesAt g.point)) (hs : Reached unit S P g s)
    (hregular : ¬ (attempt S P s).IsFatal unit) (i : Fin n) :
    P.balance (QuadraticProgram.iterate unit S P s).point
        (QuadraticProgram.iterate unit S P s).active.multiplier i =
      (1 - (QuadraticProgram.iterate unit S P s).length) *
        P.balance s.point s.active.multiplier i := by
  rw [iterate_of_not_isFatal hregular]
  exact (hs.coherent hP).balance_advanced hP hH hS (solves_of_not_isFatal hunit hS hregular)
    (hs.variablesHold hunit hP hS hg) i

/-- Every step shrinks the gradient of the Lagrangian, with all multipliers, by its length, and a
run shrinks it by the product of what its steps leave. -/
theorem balance_shrinks (hunit : 0 ≤ unit) (hP : P.Proper) (hH : P.hessian.toMatrix.IsSymm)
    (hS : S.Covers P) (hg : P.VariablesHold (P.valuesAt g.point)) :
    (∀ s, Reached unit S P g s → ¬ (attempt S P s).IsFatal unit → ∀ i,
      P.balance (QuadraticProgram.iterate unit S P s).point
          (QuadraticProgram.iterate unit S P s).active.multiplier i =
        (1 - (QuadraticProgram.iterate unit S P s).length) *
          P.balance s.point s.active.multiplier i) ∧
      ∀ k, (∀ j < k, ¬ (attempt S P (stateAfter unit S P g j)).IsFatal unit) → ∀ i,
        P.balance (stateAfter unit S P g k).point (stateAfter unit S P g k).active.multiplier i =
          (∏ j ∈ Finset.range k, (1 - (stateAfter unit S P g (j + 1)).length)) *
            P.balance (State.start P g).point (State.start P g).active.multiplier i := by
  refine ⟨fun s hs hregular i => hs.balance_iterate hunit hP hH hS hg hregular i, fun k => ?_⟩
  induction k with
  | zero =>
    intro _ i
    rw [Finset.range_zero, Finset.prod_empty, one_mul]
    rfl
  | succ k ih =>
    intro hregular i
    have hstep := (reached_stateAfter unit S P g k).balance_iterate hunit hP hH hS hg
      (hregular k k.lt_succ_self) i
    rw [ih (fun j hj => hregular j (hj.trans k.lt_succ_self)) i] at hstep
    rw [Finset.prod_range_succ, mul_comm (∏ j ∈ Finset.range k, _), mul_assoc]
    exact hstep

/-- From one above the bound half of the residual is left after the first step, and nothing after
the second. -/
theorem balance_shrinks_above :
    let S := Problem.aboveOne.analyze .natural
    let s := stateAfter 0 S Problem.aboveOne .above
    Problem.aboveOne.Proper ∧ Problem.aboveOne.hessian.toMatrix.IsSymm ∧
      S.Covers Problem.aboveOne ∧
      Problem.aboveOne.VariablesHold (Problem.aboveOne.valuesAt PrimalDual.above.point) ∧
      (∀ j < 2, ¬ (attempt S Problem.aboveOne (s j)).IsFatal 0) ∧
      Problem.aboveOne.balance (s 0).point (s 0).active.multiplier 0 = 2 ∧
      ((s 1).length = 1 / 2 ∧ (s 1).point.get 0 = 1 ∧ (s 1).active.status.get 0 = .lower ∧
        Problem.aboveOne.balance (s 1).point (s 1).active.multiplier 0 = 1) ∧
      (s 2).length = 1 ∧ Problem.aboveOne.balance (s 2).point (s 2).active.multiplier 0 = 0 := by
  intro S s
  have hS := covers_analyze Problem.aboveOne .natural
  have hsymm : Problem.aboveOne.hessian.toMatrix.IsSymm :=
    Problem.posDef_hessian_aboveOne.isHermitian
  have hg := Problem.inequalitiesHold_above.variables
  have hregular : ∀ k, ¬ (attempt S Problem.aboveOne (s k)).IsFatal 0 :=
    not_isFatal_stateAfter_above .natural
  obtain ⟨-, hvalue, hstatus, -⟩ := stateAfter_one_above .natural
  have hhalf : (s 1).length = 1 / 2 := (stateAfter_one_above .natural).1.1
  have hfull : (s 2).length = 1 := by
    have hnext : s 2 = (attempt S Problem.aboveOne (s 1)).advanced :=
      iterate_of_not_isFatal (hregular 1)
    rw [hnext]
    exact stepLimit_of_no_index (index_attempt_above .natural)
  have hstart : Problem.aboveOne.balance (s 0).point (s 0).active.multiplier 0 = 2 := balance_above
  obtain ⟨hstep, hrun⟩ := balance_shrinks le_rfl Problem.proper_aboveOne hsymm hS hg
  have hone : Problem.aboveOne.balance (s 1).point (s 1).active.multiplier 0 =
      (1 - (s 1).length) * Problem.aboveOne.balance (s 0).point (s 0).active.multiplier 0 :=
    hstep (s 0) .start (hregular 0) 0
  have htwo : Problem.aboveOne.balance (s 2).point (s 2).active.multiplier 0 =
      (∏ j ∈ Finset.range 2, (1 - (s (j + 1)).length)) *
        Problem.aboveOne.balance (s 0).point (s 0).active.multiplier 0 :=
    hrun 2 (fun j _ => hregular j) 0
  rw [hhalf, hstart] at hone
  rw [Finset.prod_range_succ, hfull, sub_self, mul_zero, zero_mul] at htwo
  exact ⟨Problem.proper_aboveOne, hsymm, hS, hg, fun j _ => hregular j, hstart,
    ⟨hhalf, (get_onVariables _ 0).trans hvalue, hstatus, hone.trans (by norm_num)⟩, hfull, htwo⟩

end Reached

end QuadraticProgram
