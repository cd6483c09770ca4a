import QuadraticProgram.Proofs.Newton

/-! # Rescaled problems

A problem whose values are those of another one times `a`, and whose gradients are those times `b`.
Points take the first factor and multipliers the second one, and the optimality system follows: the
equation of a held entry is about values, and all others are about gradients. With both factors
minus one this is the problem in the opposite direction, with `a = 1` the objective is scaled.
-/
namespace QuadraticProgram
open Matrix

variable {n m : ℕ} {a b : ℝ}

/-- The values are multiplied by `a` and the gradients by `b`. -/
structure Problem.Rescales (a b : ℝ) (P Q : Problem ℝ EReal n m) : Prop where
  hessian : a • Q.hessian.toMatrix = b • P.hessian.toMatrix
  linear : Q.linear.get = b • P.linear.get
  constraints : Q.constraints = P.constraints

structure ActiveSet.Rescales {k : ℕ} (b : ℝ) (s t : ActiveSet ℝ k) : Prop where
  multiplier : ∀ e, t.multiplier.get e = b * s.multiplier.get e
  isActive_iff : ∀ e, (t.status.get e).IsActive ↔ (s.status.get e).IsActive

theorem ActiveSet.Rescales.inactive {k : ℕ} {s t : ActiveSet ℝ k} (hst : s.Rescales b t) {e : Fin k}
    (he : s.status.get e = .inactive) : t.status.get e = .inactive :=
  not_not.mp fun h => (hst.isActive_iff e).mp h he

section Parts

variable {z z' : Vector ℝ (n + m)}

theorem get_castAdd_of_smul (h : (onVariables z').get = a • (onVariables z).get) (i : Fin n) :
    z'.get (i.castAdd m) = a * z.get (i.castAdd m) := by
  have hi := congrFun h i
  rwa [get_onVariables, Pi.smul_apply, get_onVariables, smul_eq_mul] at hi

theorem get_natAdd_of_smul (h : (onRows z').get = b • (onRows z).get) (j : Fin m) :
    z'.get (j.natAdd n) = b * z.get (j.natAdd n) := by
  have hj := congrFun h j
  rwa [get_onRows, Pi.smul_apply, get_onRows, smul_eq_mul] at hj

end Parts

namespace Problem.Rescales

variable {P Q : Problem ℝ EReal n m} (hPQ : P.Rescales a b Q)
include hPQ

theorem normal (e : Fin (n + m)) : Q.normal e = P.normal e := by
  rw [Problem.normal, Problem.normal, hPQ.constraints]

theorem hessian_mulVec (x : Fin n → ℝ) :
    Q.hessian.toMatrix *ᵥ (a • x) = b • (P.hessian.toMatrix *ᵥ x) := by
  rw [mulVec_smul, ← smul_mulVec, hPQ.hessian, smul_mulVec]

section Point

variable {x x' : Vector ℝ n} {y y' : Vector ℝ m} (hx : x'.get = a • x.get)
include hx

theorem valuesAt (e : Fin (n + m)) : (Q.valuesAt x').get e = a * (P.valuesAt x).get e := by
  rw [get_valuesAt_eq_dotProduct, get_valuesAt_eq_dotProduct, hPQ.normal, hx, dotProduct_smul,
    smul_eq_mul]

theorem gradient (hy : y'.get = b • y.get) (i : Fin n) :
    (Q.gradient x' y').get i = b * (P.gradient x y).get i := by
  rw [gradient_real, gradient_real, hx, hy, hPQ.hessian_mulVec, hPQ.linear, hPQ.constraints,
    smul_vecMul, ← smul_add, ← smul_add, Pi.smul_apply, smul_eq_mul]

theorem objective : Q.objective x' = a * b * P.objective x := by
  rw [objective_real, objective_real, hx, hPQ.hessian_mulVec, hPQ.linear]
  simp only [smul_dotProduct, dotProduct_smul, smul_eq_mul]
  ring

end Point

section System

variable {value value' z z' : Vector ℝ (n + m)} {s t : ActiveSet ℝ (n + m)}
variable (hst : s.Rescales b t)
include hst

theorem rightHandSide (hvalue : value'.get = a • value.get)
    (hheld : ∀ e, (s.status.get e).IsActive →
      ((t.status.get e).heldAt (Q.lower.get e) (Q.upper.get e) : ℝ) =
        a * (s.status.get e).heldAt (P.lower.get e) (P.upper.get e)) (e : Fin (n + m)) :
    (Q.rightHandSide value' t).get e =
      (if (s.status.get e).IsActive then a else b) * (P.rightHandSide value s).get e := by
  by_cases he : (s.status.get e).IsActive
  · rw [if_pos he, get_rightHandSide_of_isActive _ _ _ _ he,
      get_rightHandSide_of_isActive _ _ _ _ ((hst.isActive_iff e).mpr he), hheld e he, hvalue,
      Pi.smul_apply, smul_eq_mul]
    ring
  · rw [if_neg he]
    have he := not_not.mp he
    have he' := hst.inactive he
    revert he he'
    refine Fin.addCases (fun i he he' => ?_) (fun j he he' => ?_) e
    · have hx : (onVariables value').get = a • (onVariables value).get := by
        funext i
        rw [get_onVariables, hvalue, Pi.smul_apply, Pi.smul_apply, get_onVariables]
      have hy : (onRows t.multiplier).get = b • (onRows s.multiplier).get := by
        funext j
        rw [get_onRows, hst.multiplier, Pi.smul_apply, get_onRows, smul_eq_mul]
      rw [get_rightHandSide_castAdd _ _ _ _ he, get_rightHandSide_castAdd _ _ _ _ he',
        hPQ.gradient hx hy, mul_neg]
    · rw [get_rightHandSide_natAdd _ _ _ _ he, get_rightHandSide_natAdd _ _ _ _ he', neg_zero,
        mul_zero]

variable (hx : (onVariables z').get = a • (onVariables z).get)
variable (hy : (onRows z').get = b • (onRows z).get)
include hx hy

theorem direction (hvalue : value'.get = a • value.get) (e : Fin (n + m)) :
    (Q.direction value' t z').value.get e = a * (P.direction value s z).value.get e ∧
      (Q.direction value' t z').multiplier.get e =
        b * (P.direction value s z).multiplier.get e := by
  have hrows : ∀ j : Fin m, (Q.direction value' t z').multiplier.get (j.natAdd n) =
      b * (P.direction value s z).multiplier.get (j.natAdd n) := by
    intro j
    rw [get_multiplier_direction_natAdd, get_multiplier_direction_natAdd, get_natAdd_of_smul hy,
      mul_ite, mul_zero]
    exact if_congr (hst.isActive_iff _) rfl rfl
  refine ⟨hPQ.valuesAt hx e, Fin.addCases (fun i => ?_) hrows e⟩
  -- both targets are gradients at the ends of full steps, which are rescaled as well
  let x : Vector ℝ n := Vector.ofFn fun i => value.get (i.castAdd m) + (onVariables z).get i
  let x' : Vector ℝ n := Vector.ofFn fun i => value'.get (i.castAdd m) + (onVariables z').get i
  let y : Vector ℝ m := Vector.ofFn fun j => s.multiplier.get (j.natAdd n) +
    (P.direction value s z).multiplier.get (j.natAdd n)
  let y' : Vector ℝ m := Vector.ofFn fun j => t.multiplier.get (j.natAdd n) +
    (Q.direction value' t z').multiplier.get (j.natAdd n)
  have hpoint : x'.get = a • x.get := by
    funext i
    rw [Pi.smul_apply, get_ofFn, get_ofFn, hvalue, hx, Pi.smul_apply, Pi.smul_apply, ← smul_add]
  have hmultiplier : y'.get = b • y.get := by
    funext j
    rw [Pi.smul_apply, get_ofFn, get_ofFn, hst.multiplier, hrows, smul_eq_mul, mul_add]
  rw [get_multiplier_direction_castAdd (x := x') (y := y') (get_ofFn _) (get_ofFn _),
    get_multiplier_direction_castAdd (x := x) (y := y) (get_ofFn _) (get_ofFn _),
    hPQ.gradient hpoint hmultiplier, hst.multiplier, mul_ite, mul_zero]
  refine if_congr (hst.isActive_iff _) ?_ rfl
  ring

variable {S : Analysis n m} (hP : S.Covers P) (hQ : S.Covers Q)
include hP hQ

theorem vecMul_modify (e : Fin (n + m)) :
    (z'.get ᵥ* (S.modify (S.assemble Q) t.status).toMatrix) e =
      (if (s.status.get e).IsActive then a else b) *
        (z.get ᵥ* (S.modify (S.assemble P) s.status).toMatrix) e := by
  by_cases he : (s.status.get e).IsActive
  · rw [if_pos he, vecMul_modify_of_isActive hP he,
      vecMul_modify_of_isActive hQ ((hst.isActive_iff e).mpr he), hPQ.normal, ← smul_eq_mul,
      ← dotProduct_smul]
    exact congrArg _ (funext (get_castAdd_of_smul hx))
  · rw [if_neg he]
    have he := not_not.mp he
    have he' := hst.inactive he
    revert he he'
    refine Fin.addCases (fun i he he' => ?_) (fun j he he' => ?_) e
    -- the part on the variables meets the Hessian, which makes up for the other factor
    · rw [hP.vecMul_modify_of_kept (by simp [he]), hQ.vecMul_modify_of_kept (by simp [he']),
        mul_add, Finset.mul_sum, Finset.mul_sum]
      congr 1
      · refine Finset.sum_congr rfl fun i' _ => ?_
        have hentry : a * Q.hessian.entry i' i = b * P.hessian.entry i' i :=
          congrFun (congrFun hPQ.hessian i') i
        rw [get_castAdd_of_smul hx, Mat.entry_bordered_castAdd_castAdd,
          Mat.entry_bordered_castAdd_castAdd]
        linear_combination z.get (i'.castAdd m) * hentry
      · refine Finset.sum_congr rfl fun j _ => ?_
        rw [get_natAdd_of_smul hy, Mat.entry_bordered_natAdd_castAdd,
          Mat.entry_bordered_natAdd_castAdd, hPQ.constraints, mul_assoc]
    · rw [vecMul_modify_natAdd_of_inactive S Q he', vecMul_modify_natAdd_of_inactive S P he,
        get_natAdd_of_smul hy, mul_neg]

theorem solves (hvalue : value'.get = a • value.get)
    (hheld : ∀ e, (s.status.get e).IsActive →
      ((t.status.get e).heldAt (Q.lower.get e) (Q.upper.get e) : ℝ) =
        a * (s.status.get e).heldAt (P.lower.get e) (P.upper.get e))
    (hz : S.Solves P value s z) : S.Solves Q value' t z' := by
  funext e
  rw [hPQ.vecMul_modify hst hx hy hP hQ, hPQ.rightHandSide hst hvalue hheld, congrFun hz e]

end System

omit hPQ in
theorem symm (ha : a ≠ 0) (hb : b ≠ 0) (hPQ : P.Rescales a b Q) : Q.Rescales a⁻¹ b⁻¹ P where
  hessian := by
    rw [inv_smul_eq_iff₀ ha, smul_comm, hPQ.hessian, inv_smul_smul₀ hb]
  linear := by rw [hPQ.linear, inv_smul_smul₀ hb]
  constraints := hPQ.constraints.symm

/-- Both systems are solvable for every right-hand side, or neither is. -/
theorem isUnit_modify (ha : a ≠ 0) (hb : b ≠ 0) {s t : ActiveSet ℝ (n + m)} (hst : s.Rescales b t)
    {S : Analysis n m} (hP : S.Covers P) (hQ : S.Covers Q)
    (hunit : IsUnit (S.modify (S.assemble P) s.status).toMatrix) :
    IsUnit (S.modify (S.assemble Q) t.status).toMatrix := by
  apply vecMul_surjective_iff_isUnit.mp
  intro w
  -- a solution for the right-hand side divided by the factors, rescaled, is one for the right-hand
  -- side itself
  let factor : Fin (n + m) → ℝ := fun e => if (s.status.get e).IsActive then a else b
  obtain ⟨z, hz⟩ := vecMul_surjective_iff_isUnit.mpr hunit fun e => (factor e)⁻¹ * w e
  let z' : Vector ℝ (n + m) :=
    join (a • onVariables (Vector.ofFn z)) (b • onRows (Vector.ofFn z))
  have hx : (onVariables z').get = a • (onVariables (Vector.ofFn z)).get := by
    rw [onVariables_join, get_smul_eq]
  have hy : (onRows z').get = b • (onRows (Vector.ofFn z)).get := by
    rw [onRows_join, get_smul_eq]
  refine ⟨z'.get, funext fun e => ?_⟩
  have hfactor : factor e ≠ 0 := by
    dsimp only [factor]
    split_ifs
    · exact ha
    · exact hb
  have hget : (Vector.ofFn z).get = z := funext (get_ofFn z)
  refine (hPQ.vecMul_modify hst hx hy hP hQ e).trans ?_
  rw [hget]
  exact (congrArg (factor e * ·) (congrFun hz e)).trans (mul_inv_cancel_left₀ hfactor (w e))

end Problem.Rescales

end QuadraticProgram
