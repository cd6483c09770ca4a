import Mathlib.LinearAlgebra.Matrix.PosDef
import QuadraticProgram.Residuals
import QuadraticProgram.Proofs.ActiveSet
import QuadraticProgram.Proofs.Newton

/-! # Conditions of optimality

The residuals are maxima, so each stays below a bound exactly when all of its terms do. The change
of the objective between two points is a curvature term, the gradient of the Lagrangian along the
way, and the work of the multipliers against the change of the values. Where the gradient vanishes
and every multiplier pushes against a bound that its entry lies on, a convex objective is minimal.
-/
namespace QuadraticProgram
open Matrix

variable {n m : ℕ} {lb ub : EReal} {v w l c : ℝ}

section Residuals

theorem firstUnlessExceeded_real (a b : ℝ) : firstUnlessExceeded a b = max a b := by
  unfold firstUnlessExceeded
  split_ifs with h
  · exact (max_eq_right h.le).symm
  · exact (max_eq_left (not_lt.mp h)).symm

theorem largest_entries_le_iff {f : Fin (n + m) → ℝ} :
    firstUnlessExceeded (largest fun i => f (i.castAdd m)) (largest fun j => f (j.natAdd n)) ≤ c ↔
      0 ≤ c ∧ ∀ e, f e ≤ c := by
  rw [firstUnlessExceeded_real, max_le_iff, largest_le_iff, largest_le_iff]
  constructor
  · rintro ⟨⟨hc, hvariables⟩, -, hrows⟩
    exact ⟨hc, fun e => Fin.addCases hvariables hrows e⟩
  · rintro ⟨hc, hall⟩
    exact ⟨⟨hc, fun i => hall _⟩, hc, fun j => hall _⟩

variable {P : Problem ℝ EReal n m} {p : PrimalDual ℝ n m}

theorem stationarity_le_iff :
    (P.residuals p).stationarity ≤ c ↔ 0 ≤ c ∧ ∀ i, |P.balance p.point p.multiplier i| ≤ c :=
  largest_le_iff (f := fun i => |P.balance p.point p.multiplier i|)

theorem primal_le_iff {c : EReal} :
    (P.residuals p).primal ≤ c ↔
      0 ≤ c ∧ ∀ e, P.lower.get e - ((P.valuesAt p.point).get e : ℝ) ≤ c ∧
        ((P.valuesAt p.point).get e : ℝ) - P.upper.get e ≤ c :=
  foldl_max_le_iff (f := fun e => P.lower.get e - ((P.valuesAt p.point).get e : ℝ))
    (g := fun e => ((P.valuesAt p.point).get e : ℝ) - P.upper.get e) (b := 0)

theorem dualSign_le_iff :
    (P.residuals p).dualSign ≤ c ↔
      0 ≤ c ∧ ∀ e, signViolation (P.lower.get e) (P.upper.get e) (p.multiplier.get e) ≤ c :=
  largest_entries_le_iff
    (f := fun e => signViolation (P.lower.get e) (P.upper.get e) (p.multiplier.get e))

theorem complementarity_le_iff :
    (P.residuals p).complementarity ≤ c ↔
      0 ≤ c ∧ ∀ e, complementarityGap (P.lower.get e) (P.upper.get e)
        ((P.valuesAt p.point).get e) (p.multiplier.get e) ≤ c :=
  largest_entries_le_iff (f := fun e => complementarityGap (P.lower.get e) (P.upper.get e)
    ((P.valuesAt p.point).get e) (p.multiplier.get e))

end Residuals

/-- A multiplier only pushes against a bound that its value lies on. -/
def Complementary (lb ub : EReal) (v l : ℝ) : Prop :=
  l ≤ 0 ∧ (v : EReal) = lb ∨ l = 0 ∨ 0 ≤ l ∧ (v : EReal) = ub

namespace Complementary

theorem signViolation_eq_zero (h : Complementary lb ub v l) : signViolation lb ub l = 0 := by
  unfold signViolation
  rcases h with ⟨hl, rfl⟩ | rfl | ⟨hl, rfl⟩
  · rw [if_pos (Status.isFinite_coe v), max_eq_right hl]
    simp [abs_real]
  · simp [abs_real]
  · rw [if_pos (Status.isFinite_coe v), min_eq_right hl]
    simp [abs_real]

theorem complementarityGap_eq_zero (h : Complementary lb ub v l) :
    complementarityGap lb ub v l = 0 := by
  have hvalue : ∀ r : ℝ, Bound.toScalar (r : EReal) = r := EReal.toReal_coe
  unfold complementarityGap
  rcases h with ⟨hl, rfl⟩ | rfl | ⟨hl, rfl⟩
  · rw [max_eq_right hl, hvalue, sub_self, ite_self]
    simp [abs_real]
  · simp [abs_real]
  · rw [min_eq_right hl, hvalue, sub_self, ite_self]
    simp [abs_real]

theorem mul_sub_nonpos (h : Complementary lb ub v l) (hw : lb ≤ w ∧ w ≤ ub) :
    l * (w - v) ≤ 0 := by
  rcases h with ⟨hl, rfl⟩ | rfl | ⟨hl, rfl⟩
  · have hvw : v ≤ w := EReal.coe_le_coe_iff.mp hw.1
    exact mul_nonpos_of_nonpos_of_nonneg hl (sub_nonneg.mpr hvw)
  · rw [zero_mul]
  · have hwv : w ≤ v := EReal.coe_le_coe_iff.mp hw.2
    exact mul_nonpos_of_nonneg_of_nonpos hl (sub_nonpos.mpr hwv)

end Complementary

namespace Problem

variable {P : Problem ℝ EReal n m} {x y : Vector ℝ n} {multiplier : Vector ℝ (n + m)}

def Feasible (P : Problem ℝ EReal n m) (x : Vector ℝ n) : Prop :=
  ∀ e, P.lower.get e ≤ (P.valuesAt x).get e ∧ (P.valuesAt x).get e ≤ P.upper.get e

/-- The change of the objective, by Lagrange multipliers of any kind. -/
theorem objective_sub (hH : P.hessian.toMatrix.IsSymm) (x y : Vector ℝ n)
    (multiplier : Vector ℝ (n + m)) :
    P.objective y - P.objective x =
      1 / 2 * ((y.get - x.get) ⬝ᵥ P.hessian.toMatrix *ᵥ (y.get - x.get)) +
        ∑ i, P.balance x multiplier i * (y.get i - x.get i) -
          ∑ e, multiplier.get e * ((P.valuesAt y).get e - (P.valuesAt x).get e) := by
  let H := P.hessian.toMatrix
  let A := P.constraints.toMatrix
  let d := y.get - x.get
  have hswap : x.get ⬝ᵥ H *ᵥ y.get = y.get ⬝ᵥ H *ᵥ x.get := by
    rw [dotProduct_mulVec, dotProduct_comm, ← mulVec_transpose, hH.eq]
  have hbalance : ∑ i, P.balance x multiplier i * (y.get i - x.get i) =
      H *ᵥ x.get ⬝ᵥ d + P.linear.get ⬝ᵥ d + (onRows multiplier).get ⬝ᵥ A *ᵥ d +
        ∑ i : Fin n, multiplier.get (i.castAdd m) * (y.get i - x.get i) := by
    simp only [balance, gradient_real, Pi.add_apply, add_mul, Finset.sum_add_distrib]
    rw [dotProduct_mulVec]
    rfl
  have hvalues : ∑ e, multiplier.get e * ((P.valuesAt y).get e - (P.valuesAt x).get e) =
      ∑ i : Fin n, multiplier.get (i.castAdd m) * (y.get i - x.get i) +
        (onRows multiplier).get ⬝ᵥ A *ᵥ d := by
    rw [Fin.sum_univ_add]
    simp only [get_valuesAt_castAdd, get_valuesAt_natAdd, d, mulVec_sub]
    simp [dotProduct, A]
  have hlinear : P.linear.get ⬝ᵥ d = P.linear.get ⬝ᵥ y.get - P.linear.get ⬝ᵥ x.get :=
    dotProduct_sub _ _ _
  have hslope : H *ᵥ x.get ⬝ᵥ d = y.get ⬝ᵥ H *ᵥ x.get - x.get ⬝ᵥ H *ᵥ x.get := by
    rw [dotProduct_comm]
    exact sub_dotProduct _ _ _
  have hcurvature : d ⬝ᵥ H *ᵥ d =
      y.get ⬝ᵥ H *ᵥ y.get - 2 * (y.get ⬝ᵥ H *ᵥ x.get) + x.get ⬝ᵥ H *ᵥ x.get := by
    rw [mulVec_sub, dotProduct_sub, sub_dotProduct, sub_dotProduct, hswap]
    ring
  change _ = 1 / 2 * (d ⬝ᵥ H *ᵥ d) + _ - _
  rw [hbalance, hvalues, hlinear, hslope, hcurvature, objective_real, objective_real]
  ring

/-- The change of the objective along a step. -/
theorem objective_add_smul (hH : P.hessian.toMatrix.IsSymm) {x d y : Vector ℝ n} (t : ℝ)
    (hy : ∀ i, y.get i = x.get i + t * d.get i) (multiplier : Vector ℝ (n + m)) :
    P.objective y - P.objective x =
      t ^ 2 / 2 * (d.get ⬝ᵥ P.hessian.toMatrix *ᵥ d.get) +
        t * ∑ i, P.balance x multiplier i * d.get i -
          t * ∑ e, multiplier.get e * (P.valuesAt d).get e := by
  have hpoint : y.get - x.get = t • d.get := funext fun i => by
    rw [Pi.sub_apply, hy, add_sub_cancel_left, Pi.smul_apply, smul_eq_mul]
  have hslope : ∑ i, P.balance x multiplier i * (y.get i - x.get i) =
      t * ∑ i, P.balance x multiplier i * d.get i := by
    rw [Finset.mul_sum]
    exact Finset.sum_congr rfl fun i _ => by rw [hy, add_sub_cancel_left, mul_left_comm]
  have hwork : ∑ e, multiplier.get e * ((P.valuesAt y).get e - (P.valuesAt x).get e) =
      t * ∑ e, multiplier.get e * (P.valuesAt d).get e := by
    rw [Finset.mul_sum]
    refine Finset.sum_congr rfl fun e _ => ?_
    rw [P.get_valuesAt_add_smul t hy, add_sub_cancel_left, mul_left_comm]
  rw [objective_sub hH x y multiplier, hpoint, hslope, hwork, mulVec_smul, dotProduct_smul,
    smul_dotProduct, smul_eq_mul, smul_eq_mul]
  ring

/-- A balanced point whose multipliers push against its bounds minimises a convex objective. -/
theorem objective_le_of_balance (hH : P.hessian.toMatrix.PosSemidef)
    (hbalance : ∀ i, P.balance x multiplier i = 0)
    (hcomplementary : ∀ e, Complementary (P.lower.get e) (P.upper.get e) ((P.valuesAt x).get e)
      (multiplier.get e)) (hy : P.Feasible y) : P.objective x ≤ P.objective y := by
  have hcurvature : 0 ≤ (y.get - x.get) ⬝ᵥ P.hessian.toMatrix *ᵥ (y.get - x.get) :=
    hH.dotProduct_mulVec_nonneg (y.get - x.get)
  have hwork : ∑ e, multiplier.get e * ((P.valuesAt y).get e - (P.valuesAt x).get e) ≤ 0 :=
    Finset.sum_nonpos fun e _ => (hcomplementary e).mul_sub_nonpos (hy e)
  have hslope : ∑ i, P.balance x multiplier i * (y.get i - x.get i) = 0 :=
    Finset.sum_eq_zero fun i _ => by rw [hbalance i, zero_mul]
  have hsymm : P.hessian.toMatrix.IsSymm := hH.isHermitian
  have hchange := objective_sub hsymm x y multiplier
  rw [hslope] at hchange
  linarith

end Problem

end QuadraticProgram
