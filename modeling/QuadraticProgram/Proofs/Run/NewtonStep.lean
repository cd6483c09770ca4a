import QuadraticProgram.Proofs.Run.Success

/-! # The Newton step of an active set

Column by column the transposed system says what its entry has to do: a held entry lands on its
bound, a free variable makes up for the gradient, and a free row keeps its multiplier. For sides
with finite bounds these conditions are the system. The step that the factorization finds takes any
iterate to a balanced one, whatever mixture of statuses it has.
-/
namespace QuadraticProgram
open Matrix

variable {n m : ℕ} {S : Analysis n m} {P : Problem ℝ EReal n m}

open Problem

section Equations

variable {value : Vector ℝ (n + m)} {s : ActiveSet ℝ (n + m)} {z : Vector ℝ (n + m)}

theorem Analysis.vecMul_eq_rightHandSide_iff (S : Analysis n m) (P : Problem ℝ EReal n m) :
    (S.modify (S.assemble P) s.status).vecMul z = P.rightHandSide value s ↔
      S.Solves P value s z := by
  rw [Solves, ← vecMul_real]
  exact ⟨congrArg Vector.get, fun h => vector_ext (congrFun h)⟩

/-- The equation of an entry that is held at a finite bound takes it onto that bound. -/
theorem equation_iff_of_finiteSide (hS : S.Covers P) {e : Fin (n + m)}
    (hside : (s.status.get e).FiniteSide (P.lower.get e) (P.upper.get e))
    (he : (s.status.get e).IsActive) :
    (z.get ᵥ* (S.modify (S.assemble P) s.status).toMatrix) e = (P.rightHandSide value s).get e ↔
      ((value.get e + (P.valuesAt (onVariables z)).get e : ℝ) : EReal) =
        (s.status.get e).boundOn (P.lower.get e) (P.upper.get e) := by
  rw [equation_iff_of_isActive hS he, ← hside.coe_heldAt he, EReal.coe_eq_coe_iff]

theorem solves_iff_equations (hH : P.hessian.toMatrix.IsSymm) (hS : S.Covers P)
    (hside : ∀ e, (s.status.get e).FiniteSide (P.lower.get e) (P.upper.get e)) :
    S.Solves P value s z ↔
      (∀ i : Fin n, s.status.get (i.castAdd m) = .inactive →
        (P.hessian.toMatrix *ᵥ (onVariables z).get) i +
            ((onRows z).get ᵥ* P.constraints.toMatrix) i =
          -(P.gradient (onVariables value) (onRows s.multiplier)).get i) ∧
      (∀ j : Fin m, s.status.get (j.natAdd n) = .inactive → z.get (j.natAdd n) = 0) ∧
      ∀ e, (s.status.get e).IsActive →
        ((value.get e + (P.valuesAt (onVariables z)).get e : ℝ) : EReal) =
          (s.status.get e).boundOn (P.lower.get e) (P.upper.get e) := by
  constructor
  · intro hz
    exact ⟨fun i hi => (equation_castAdd_iff_of_inactive hH hS hi).mp (congrFun hz _),
      fun j hj => (equation_natAdd_iff_of_inactive S P hj).mp (congrFun hz _),
      fun e he => (equation_iff_of_finiteSide hS (hside e) he).mp (congrFun hz e)⟩
  · rintro ⟨hvariables, hrows, hheld⟩
    funext e
    by_cases he : s.status.get e = .inactive
    · revert he
      refine Fin.addCases (fun i hi => ?_) (fun j hj => ?_) e
      · exact (equation_castAdd_iff_of_inactive hH hS hi).mpr (hvariables i hi)
      · exact (equation_natAdd_iff_of_inactive S P hj).mpr (hrows j hj)
    · exact (equation_iff_of_finiteSide hS (hside e) he).mpr (hheld e he)

end Equations

/-- A vector solves the Newton system exactly when it does to every entry what the status of the
entry asks for. If free variables have no multiplier, then a full step along the directions of the
factorized solution balances the gradient of the Lagrangian in every component. -/
theorem newton_step_balances {unit : ℝ} (hunit : 0 ≤ unit) (hH : P.hessian.toMatrix.IsSymm)
    (hS : S.Covers P) (value : Vector ℝ (n + m)) (s : ActiveSet ℝ (n + m))
    (hside : ∀ e, (s.status.get e).FiniteSide (P.lower.get e) (P.upper.get e)) :
    let M := S.modify (S.assemble P) s.status
    let bound := fun e => (s.status.get e).boundOn (P.lower.get e) (P.upper.get e)
    (∀ z, M.vecMul z = P.rightHandSide value s ↔
      (∀ i : Fin n, s.status.get (i.castAdd m) = .inactive →
        (P.hessian.mulVec (onVariables z)).get i + (P.constraints.vecMul (onRows z)).get i =
          -(P.gradient (onVariables value) (onRows s.multiplier)).get i) ∧
      (∀ i : Fin n, (s.status.get (i.castAdd m)).IsActive →
        ((value.get (i.castAdd m) + z.get (i.castAdd m) : ℝ) : EReal) = bound (i.castAdd m)) ∧
      (∀ j : Fin m, s.status.get (j.natAdd n) = .inactive → z.get (j.natAdd n) = 0) ∧
      ∀ j : Fin m, (s.status.get (j.natAdd n)).IsActive →
        ((value.get (j.natAdd n) + (P.constraints.mulVec (onVariables z)).get j : ℝ) : EReal) =
          bound (j.natAdd n)) ∧
    (¬ (S.factorize M).IsSingular unit →
      (∀ i : Fin n, s.status.get (i.castAdd m) = .inactive →
        s.multiplier.get (i.castAdd m) = 0) →
      let d := P.direction value s ((S.factorize M).solveTransposed (P.rightHandSide value s))
      ∀ i, P.balance (onVariables value + onVariables d.value) (s.multiplier + d.multiplier) i =
        0) := by
  intro M bound
  refine ⟨fun z => ?_, fun hregular hfree => ?_⟩
  · rw [S.vecMul_eq_rightHandSide_iff, solves_iff_equations hH hS hside, Fin.forall_fin_add]
    simp only [mulVec_real, vecMul_real, get_valuesAt_castAdd, get_onVariables, get_valuesAt_natAdd]
    exact and_congr_right fun _ => and_left_comm
  · intro d i
    have hz : S.Solves P value s ((S.factorize M).solveTransposed (P.rightHandSide value s)) :=
      (hS.isExact (S.assemble P) s.status).vecMul_solveTransposed
        (Factorization.entry_ne_zero_of_not_isSingular hunit hregular) _
    refine balance_full_step hH hS hz hfree (fun i => ?_) (fun e => get_add _ _ e) i
    rw [get_add, get_onVariables, value_direction, onVariables_valuesAt]

noncomputable def PrimalDual.beyond : PrimalDual ℝ 1 1 :=
  ⟨Vector.ofFn fun _ => 1 + 1, Vector.ofFn fun _ => 0⟩

section Beyond

theorem get_value_beyond_castAdd (i : Fin 1) :
    (State.start halfLine .beyond).value.get (i.castAdd 1) = 2 :=
  (get_valuesAt_castAdd halfLine _ i).trans ((get_ofFn _ _).trans one_add_one_eq_two)

theorem get_value_beyond_natAdd (j : Fin 1) :
    (State.start halfLine .beyond).value.get (j.natAdd 1) = 2 :=
  (get_valuesAt_halfLine _ j).trans ((get_ofFn _ _).trans one_add_one_eq_two)

theorem get_multiplier_beyond (e : Fin (1 + 1)) :
    (State.start halfLine .beyond).active.multiplier.get e = 0 := by
  rw [State.get_multiplier_start, PrimalDual.beyond, get_ofFn, ite_self]

theorem gradient_beyond (i : Fin 1) :
    (halfLine.gradient (onVariables (State.start halfLine .beyond).value)
      (onRows (State.start halfLine .beyond).active.multiplier)).get i = 2 := by
  have hlinear : halfLine.linear.get i = 0 := get_ofFn _ _
  rw [get_gradient, mulVec_real, vecMul_real, hessian_halfLine, constraints_halfLine, one_mulVec,
    vecMul_one, get_onVariables, get_onRows, get_value_beyond_castAdd, get_multiplier_beyond,
    hlinear]
  norm_num

end Beyond

/-- The variable is free and the row is held. From two there is one full step, back to the row's
bound. -/
theorem newton_step_balances_beyond :
    let S := halfLine.analyze .minimumDegree
    let s := State.start halfLine .beyond
    let M := S.modify (S.assemble halfLine) s.active.status
    let d := halfLine.direction s.value s.active
      ((S.factorize M).solveTransposed (halfLine.rightHandSide s.value s.active))
    halfLine.hessian.toMatrix.IsSymm ∧ S.Covers halfLine ∧
      (∀ e, (s.active.status.get e).FiniteSide (halfLine.lower.get e) (halfLine.upper.get e)) ∧
      ¬ (S.factorize M).IsSingular 0 ∧ (∀ e, s.active.multiplier.get e = 0) ∧
      halfLine.balance (onVariables s.value) s.active.multiplier 0 = 2 ∧
      M.vecMul (join #v[-1] #v[-1]) = halfLine.rightHandSide s.value s.active ∧
      halfLine.balance (onVariables s.value + onVariables d.value)
        (s.active.multiplier + d.multiplier) 0 = 0 := by
  intro S s M d
  have hS := covers_analyze halfLine .minimumDegree
  have hcoherent : s.Coherent halfLine := State.coherent_start proper_halfLine _
  have hside : ∀ e, (s.active.status.get e).FiniteSide (halfLine.lower.get e)
      (halfLine.upper.get e) := fun e =>
    (hcoherent.admits e).finiteSide (proper_halfLine e).1 (proper_halfLine e).2
  have hregular : ¬ (S.factorize M).IsSingular 0 := fun hsingular =>
    not_isSingular_attempt_of_linearIndependent posDef_hessian_halfLine hS
      (linearIndepOn_halfLine (get_ofFn _ _)) ((Attempt.isSingular_iff _).mpr hsingular)
  obtain ⟨hequations, hbalance⟩ := newton_step_balances le_rfl isSymm_hessian_halfLine hS
    s.value s.active hside
  have hresidual : halfLine.balance (onVariables s.value) s.active.multiplier 0 = 2 := by
    rw [balance, gradient_beyond, get_multiplier_beyond, add_zero]
  refine ⟨isSymm_hessian_halfLine, hS, hside, hregular, get_multiplier_beyond, hresidual,
    (hequations _).mpr ⟨fun i _ => ?_, fun i hi => ?_, fun j hj => ?_, fun j _ => ?_⟩,
    hbalance hregular (fun i _ => get_multiplier_beyond _) 0⟩
  · rw [gradient_beyond, mulVec_real, vecMul_real, hessian_halfLine, constraints_halfLine,
      one_mulVec, vecMul_one, onVariables_join, onRows_join, Subsingleton.elim i 0]
    change (-1 : ℝ) + -1 = -2
    norm_num
  · exact absurd (State.get_status_start_of_multiplier_eq_zero
      (lower_ne_upper_halfLine_castAdd i) (get_ofFn _ _)) hi
  · exact absurd hj ((hcoherent.admits _).isActive (equality_halfLine j))
  · beta_reduce
    rw [Status.boundOn_of_eq (equality_halfLine j), (bounds_halfLine_natAdd j).1,
      get_value_beyond_natAdd, onVariables_join, mulVec_real, constraints_halfLine, one_mulVec,
      Subsingleton.elim j 0]
    change ((2 + -1 : ℝ) : EReal) = 1
    norm_num

end QuadraticProgram
