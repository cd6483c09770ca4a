import QuadraticProgram.Proofs.Run.Success

/-! # What small residuals certify

A multiplier that pushes against a missing bound is small, and one that pushes against a bound is
small or its value is near that bound, so towards any value within the bounds it does little work.
Together with a small gradient of the Lagrangian this bounds how much lower a convex objective can
be at a feasible point. Without a tolerance the residuals are the conditions of optimality.
-/
namespace QuadraticProgram
open Matrix

section Entry

variable {lb ub : EReal} {v w l c : ℝ}

theorem abs_min_zero_le_iff (hc : 0 ≤ c) : |min l 0| ≤ c ↔ -c ≤ l := by
  rw [abs_of_nonpos (min_le_right l 0), neg_le, le_min_iff]
  exact and_iff_left (neg_nonpos.mpr hc)

theorem abs_max_zero_le_iff (hc : 0 ≤ c) : |max l 0| ≤ c ↔ l ≤ c := by
  rw [abs_of_nonneg (le_max_right l 0), max_le_iff]
  exact and_iff_left hc

/-- The sign residual bounds the parts of a multiplier that have no bound to push against. -/
theorem signViolation_le_iff (hc : 0 ≤ c) :
    signViolation lb ub l ≤ c ↔
      (Bound.isFinite lb = false → -c ≤ l) ∧ (Bound.isFinite ub = false → l ≤ c) := by
  have hside : ∀ (b : Bool) (a : ℝ),
      Scalar.abs (if b then 0 else a) ≤ c ↔ (b = false → |a| ≤ c) := by
    rintro (_ | _) a <;> simp [abs_real, hc]
  rw [signViolation, max_le_iff, hside, hside, abs_min_zero_le_iff hc, abs_max_zero_le_iff hc]

/-- The complementarity residual bounds the products with the distances to finite bounds. -/
theorem complementarityGap_le_iff (hc : 0 ≤ c) :
    complementarityGap lb ub v l ≤ c ↔
      (∀ b : ℝ, lb = b → |(v - b) * min l 0| ≤ c) ∧
        ∀ u : ℝ, ub = u → |(u - v) * max l 0| ≤ c := by
  have hside : ∀ (b : EReal) (d : ℝ → ℝ) (a : ℝ),
      Scalar.abs ((if Bound.isFinite b then d (Bound.toScalar b) else 0) * a) ≤ c ↔
        ∀ r : ℝ, b = r → |d r * a| ≤ c := by
    intro b d a
    by_cases hb : Bound.isFinite b = true
    · obtain ⟨htop, hbot⟩ := (Status.isFinite_ereal b).mp hb
      lift b to ℝ using ⟨htop, hbot⟩
      rw [if_pos hb]
      constructor
      · rintro h r hr
        exact EReal.coe_injective hr ▸ h
      · exact fun h => h b rfl
    · rw [if_neg hb, zero_mul, abs_real, abs_zero]
      refine iff_of_true hc fun r hr => absurd ?_ hb
      rw [hr]
      exact Status.isFinite_coe r
  rw [complementarityGap, max_le_iff]
  exact and_congr (hside lb (v - ·) _) (hside ub (· - v) _)

/-- Towards a value within the bounds a multiplier with small residuals does little work. -/
theorem mul_sub_le_of_residuals (hc : 0 ≤ c) (hsign : signViolation lb ub l ≤ c)
    (hgap : complementarityGap lb ub v l ≤ c) (hw : lb ≤ w ∧ w ≤ ub) :
    l * (w - v) ≤ c * max 1 |w - v| := by
  obtain ⟨hlow, hup⟩ := (signViolation_le_iff hc).mp hsign
  obtain ⟨hlower, hupper⟩ := (complementarityGap_le_iff hc).mp hgap
  have hnear : c ≤ c * max 1 |w - v| := le_mul_of_one_le_right hc (le_max_left _ _)
  have hsmall : |l| ≤ c → l * (w - v) ≤ c * max 1 |w - v| := fun hl =>
    calc l * (w - v) ≤ |l| * |w - v| := (le_abs_self _).trans_eq (abs_mul _ _)
      _ ≤ c * max 1 |w - v| :=
        mul_le_mul hl (le_max_right _ _) (abs_nonneg _) hc
  rcases le_total l 0 with hl | hl
  · cases hfinite : Bound.isFinite lb with
    | false => exact hsmall (abs_le.mpr ⟨hlow hfinite, hl.trans hc⟩)
    | true =>
      obtain ⟨htop, hbot⟩ := (Status.isFinite_ereal lb).mp hfinite
      lift lb to ℝ using ⟨htop, hbot⟩ with b
      have hproduct := hlower b rfl
      rw [min_eq_left hl] at hproduct
      have hbw : b ≤ w := EReal.coe_le_coe_iff.mp hw.1
      -- the way from the bound to `w` goes against the multiplier
      have hback : l * (w - b) ≤ 0 := mul_nonpos_of_nonpos_of_nonneg hl (sub_nonneg.mpr hbw)
      linarith [neg_le_of_abs_le hproduct]
  · cases hfinite : Bound.isFinite ub with
    | false => exact hsmall (abs_le.mpr ⟨(neg_nonpos.mpr hc).trans hl, hup hfinite⟩)
    | true =>
      obtain ⟨htop, hbot⟩ := (Status.isFinite_ereal ub).mp hfinite
      lift ub to ℝ using ⟨htop, hbot⟩ with u
      have hproduct := hupper u rfl
      rw [max_eq_left hl] at hproduct
      have hwu : w ≤ u := EReal.coe_le_coe_iff.mp hw.2
      have hback : l * (w - u) ≤ 0 := mul_nonpos_of_nonneg_of_nonpos hl (sub_nonpos.mpr hwu)
      linarith [le_of_abs_le hproduct]

theorem complementary_iff :
    Complementary lb ub v l ↔
      (l < 0 → (v : EReal) = lb) ∧ (0 < l → (v : EReal) = ub) := by
  constructor
  · rintro (⟨hl, hv⟩ | rfl | ⟨hl, hv⟩)
    · exact ⟨fun _ => hv, fun h => absurd h hl.not_gt⟩
    · exact ⟨fun h => absurd h (lt_irrefl _), fun h => absurd h (lt_irrefl _)⟩
    · exact ⟨fun h => absurd h hl.not_gt, fun _ => hv⟩
  · rintro ⟨hlower, hupper⟩
    rcases lt_trichotomy l 0 with h | h | h
    · exact Or.inl ⟨h.le, hlower h⟩
    · exact Or.inr (Or.inl h)
    · exact Or.inr (Or.inr ⟨h.le, hupper h⟩)

/-- Without residuals a multiplier only pushes against a bound that its value lies on. -/
theorem complementary_iff_residuals :
    Complementary lb ub v l ↔ signViolation lb ub l ≤ 0 ∧ complementarityGap lb ub v l ≤ 0 := by
  refine ⟨fun h => ⟨h.signViolation_eq_zero.le, h.complementarityGap_eq_zero.le⟩, ?_⟩
  rintro ⟨hsign, hgap⟩
  obtain ⟨hlow, hup⟩ := (signViolation_le_iff le_rfl).mp hsign
  obtain ⟨hlower, hupper⟩ := (complementarityGap_le_iff le_rfl).mp hgap
  refine complementary_iff.mpr ⟨fun hl => ?_, fun hl => ?_⟩
  · cases hfinite : Bound.isFinite lb with
    | false => exact absurd (hlow hfinite) (by rw [neg_zero]; exact hl.not_ge)
    | true =>
      obtain ⟨htop, hbot⟩ := (Status.isFinite_ereal lb).mp hfinite
      lift lb to ℝ using ⟨htop, hbot⟩ with b
      have hproduct := abs_nonpos_iff.mp (hlower b rfl)
      rw [min_eq_left hl.le] at hproduct
      rw [sub_eq_zero.mp ((mul_eq_zero.mp hproduct).resolve_right hl.ne)]
  · cases hfinite : Bound.isFinite ub with
    | false => exact absurd (hup hfinite) hl.not_ge
    | true =>
      obtain ⟨htop, hbot⟩ := (Status.isFinite_ereal ub).mp hfinite
      lift ub to ℝ using ⟨htop, hbot⟩ with u
      have hproduct := abs_nonpos_iff.mp (hupper u rfl)
      rw [max_eq_left hl.le] at hproduct
      rw [sub_eq_zero.mp ((mul_eq_zero.mp hproduct).resolve_right hl.ne')]

theorem sub_coe_le_coe_iff (lb : EReal) (v c : ℝ) :
    lb - (v : EReal) ≤ c ↔ lb ≤ ((v + c : ℝ) : EReal) := by
  rw [EReal.sub_le_iff_le_add (Or.inl (EReal.coe_ne_bot v)) (Or.inl (EReal.coe_ne_top v)),
    EReal.coe_add, add_comm]

theorem coe_sub_le_coe_iff (ub : EReal) (v c : ℝ) :
    (v : EReal) - ub ≤ c ↔ ((v - c : ℝ) : EReal) ≤ ub := by
  rw [EReal.sub_le_iff_le_add (Or.inr (EReal.coe_ne_top c)) (Or.inr (EReal.coe_ne_bot c)),
    EReal.coe_sub, EReal.sub_le_iff_le_add (Or.inl (EReal.coe_ne_bot c))
      (Or.inl (EReal.coe_ne_top c)), add_comm]

end Entry

variable {n m : ℕ} {P : Problem ℝ EReal n m} {p : PrimalDual ℝ n m} {y : Vector ℝ n}
variable {tolerance : ℝ}

namespace Problem

theorem isOptimal_iff :
    P.IsOptimal p tolerance ↔ 0 ≤ tolerance ∧
      (∀ i, |P.balance p.point p.multiplier i| ≤ tolerance) ∧
      (∀ e, P.lower.get e ≤ (((P.valuesAt p.point).get e + tolerance : ℝ) : EReal) ∧
        (((P.valuesAt p.point).get e - tolerance : ℝ) : EReal) ≤ P.upper.get e) ∧
      ∀ e, signViolation (P.lower.get e) (P.upper.get e) (p.multiplier.get e) ≤ tolerance ∧
        complementarityGap (P.lower.get e) (P.upper.get e) ((P.valuesAt p.point).get e)
          (p.multiplier.get e) ≤ tolerance := by
  have htolerance : Bound.ofScalar tolerance = (tolerance : EReal) := rfl
  rw [IsOptimal, stationarity_le_iff, htolerance, primal_le_iff, dualSign_le_iff,
    complementarity_le_iff, EReal.coe_nonneg]
  simp only [sub_coe_le_coe_iff, coe_sub_le_coe_iff, forall_and]
  tauto

/-- Without a tolerance only points that satisfy the conditions of optimality are accepted. -/
theorem isOptimal_zero_iff :
    P.IsOptimal p 0 ↔ P.Feasible p.point ∧ (∀ i, P.balance p.point p.multiplier i = 0) ∧
      ∀ e, Complementary (P.lower.get e) (P.upper.get e) ((P.valuesAt p.point).get e)
        (p.multiplier.get e) := by
  rw [isOptimal_iff]
  simp only [le_refl, true_and, abs_nonpos_iff, add_zero, sub_zero,
    ← complementary_iff_residuals]
  exact and_left_comm

/-- The work of the multipliers towards a feasible point. -/
theorem IsOptimal.sum_mul_sub_le (h : P.IsOptimal p tolerance) (hy : P.Feasible y) :
    ∑ e, p.multiplier.get e * ((P.valuesAt y).get e - (P.valuesAt p.point).get e) ≤
      tolerance * ∑ e, max 1 |(P.valuesAt y).get e - (P.valuesAt p.point).get e| := by
  obtain ⟨htolerance, -, -, hentries⟩ := isOptimal_iff.mp h
  rw [Finset.mul_sum]
  exact Finset.sum_le_sum fun e _ =>
    mul_sub_le_of_residuals htolerance (hentries e).1 (hentries e).2 (hy e)

/-- The slope towards any point. -/
theorem IsOptimal.neg_le_slope (h : P.IsOptimal p tolerance) (y : Vector ℝ n) :
    -(tolerance * ∑ i, |y.get i - p.point.get i|) ≤
      ∑ i, P.balance p.point p.multiplier i * (y.get i - p.point.get i) := by
  obtain ⟨-, hbalance, -⟩ := isOptimal_iff.mp h
  rw [Finset.mul_sum, ← Finset.sum_neg_distrib]
  refine Finset.sum_le_sum fun i _ => ?_
  calc -(tolerance * |y.get i - p.point.get i|)
      ≤ -|P.balance p.point p.multiplier i * (y.get i - p.point.get i)| := by
        rw [abs_mul]
        exact neg_le_neg (mul_le_mul_of_nonneg_right (hbalance i) (abs_nonneg _))
    _ ≤ P.balance p.point p.multiplier i * (y.get i - p.point.get i) := neg_abs_le _

theorem sum_values_sub (P : Problem ℝ EReal n m) (x y : Vector ℝ n) (f : ℝ → ℝ) :
    ∑ e, f ((P.valuesAt y).get e - (P.valuesAt x).get e) =
      ∑ i, f (y.get i - x.get i) +
        ∑ j, f ((P.constraints.toMatrix *ᵥ (y.get - x.get)) j) := by
  rw [Fin.sum_univ_add]
  simp only [get_valuesAt_castAdd, get_valuesAt_natAdd, mulVec_sub, Pi.sub_apply]

end Problem

/-- A point with small residuals violates no bound by more than the tolerance, and no feasible point
has a convex objective much lower. Without a tolerance the accepted points are exactly the balanced
feasible ones whose multipliers push against bounds that they lie on, and they are minimisers. -/
theorem isOptimal_certifies (hH : P.hessian.toMatrix.PosSemidef) (p : PrimalDual ℝ n m) :
    (∀ tolerance, P.IsOptimal p tolerance →
      (∀ e, P.lower.get e ≤ (((P.valuesAt p.point).get e + tolerance : ℝ) : EReal) ∧
        (((P.valuesAt p.point).get e - tolerance : ℝ) : EReal) ≤ P.upper.get e) ∧
      ∀ y, P.Feasible y → P.objective p.point ≤ P.objective y + tolerance *
        (∑ i, |y.get i - p.point.get i| + ∑ i, max 1 |y.get i - p.point.get i| +
          ∑ j, max 1 |(P.constraints.toMatrix *ᵥ (y.get - p.point.get)) j|)) ∧
    (P.IsOptimal p 0 ↔ P.Feasible p.point ∧ (∀ i, P.balance p.point p.multiplier i = 0) ∧
      ∀ e, (p.multiplier.get e < 0 →
          (((P.valuesAt p.point).get e : ℝ) : EReal) = P.lower.get e) ∧
        (0 < p.multiplier.get e →
          (((P.valuesAt p.point).get e : ℝ) : EReal) = P.upper.get e)) ∧
    (P.IsOptimal p 0 → ∀ y, P.Feasible y → P.objective p.point ≤ P.objective y) := by
  refine ⟨fun tolerance h => ⟨(Problem.isOptimal_iff.mp h).2.2.1, fun y hy => ?_⟩, ?_, fun h => ?_⟩
  · have hcurvature : 0 ≤ (y.get - p.point.get) ⬝ᵥ P.hessian.toMatrix *ᵥ (y.get - p.point.get) :=
      hH.dotProduct_mulVec_nonneg (y.get - p.point.get)
    have hsymm : P.hessian.toMatrix.IsSymm := hH.isHermitian
    have hchange := Problem.objective_sub hsymm p.point y p.multiplier
    have hslope := h.neg_le_slope y
    have hwork := h.sum_mul_sub_le hy
    rw [P.sum_values_sub p.point y fun d => max 1 |d|] at hwork
    linarith
  · simp only [Problem.isOptimal_zero_iff, complementary_iff]
  · obtain ⟨-, hbalance, hcomplementary⟩ := Problem.isOptimal_zero_iff.mp h
    exact fun y hy => Problem.objective_le_of_balance hH hbalance hcomplementary hy

noncomputable def PrimalDual.halfWay : PrimalDual ℝ 1 0 :=
  ⟨Vector.ofFn fun _ => Scalar.half, Vector.ofFn fun _ => -1⟩

theorem balance_halfWay (i : Fin 1) :
    Problem.aboveOne.balance PrimalDual.halfWay.point PrimalDual.halfWay.multiplier i =
      -(1 / 2) := by
  have hpoint : PrimalDual.halfWay.point.get i = 1 / 2 := (get_ofFn _ i).trans half_real
  have hmultiplier : PrimalDual.halfWay.multiplier.get (i.castAdd 0) = -1 := get_ofFn _ _
  rw [Problem.balance_aboveOne, hpoint, hmultiplier]
  norm_num

theorem get_value_halfWay (e : Fin (1 + 0)) :
    (Problem.aboveOne.valuesAt PrimalDual.halfWay.point).get e = 1 / 2 :=
  (Problem.get_valuesAt_castAdd Problem.aboveOne _ e).trans ((get_ofFn _ _).trans half_real)

theorem isOptimal_halfWay : Problem.aboveOne.IsOptimal .halfWay (1 / 2) := by
  have hhalf : (0 : ℝ) ≤ 1 / 2 := by norm_num
  have hone : (1 : EReal) = ((1 : ℝ) : EReal) := rfl
  refine Problem.isOptimal_iff.mpr ⟨hhalf, fun i => ?_, fun e => ?_, fun e => ?_⟩
  · rw [balance_halfWay, abs_neg, abs_of_nonneg hhalf]
  · rw [(Problem.bounds_aboveOne e).1, (Problem.bounds_aboveOne e).2, get_value_halfWay, hone,
      EReal.coe_le_coe_iff]
    exact ⟨by norm_num, le_top⟩
  · have hmultiplier : PrimalDual.halfWay.multiplier.get e = -1 := get_ofFn _ _
    rw [(Problem.bounds_aboveOne e).1, (Problem.bounds_aboveOne e).2, get_value_halfWay,
      hmultiplier, hone, signViolation_le_iff hhalf, complementarityGap_le_iff hhalf]
    refine ⟨⟨fun h => absurd h ?_, fun _ => by norm_num⟩, fun b hb => ?_, fun u hu => ?_⟩
    · rw [Status.isFinite_coe 1]
      exact Bool.noConfusion
    · rw [← EReal.coe_injective hb]
      norm_num [abs_le]
    · exact absurd hu.symm (EReal.coe_ne_top u)

/-- Below its bound by a half, a point passes for optimal at that tolerance and not without. -/
theorem isOptimal_certifies_halfWay :
    Problem.aboveOne.hessian.toMatrix.PosSemidef ∧
      Problem.aboveOne.IsOptimal .halfWay (1 / 2) ∧ ¬ Problem.aboveOne.IsOptimal .halfWay 0 ∧
      ∀ y, Problem.aboveOne.Feasible y →
        Problem.aboveOne.objective PrimalDual.halfWay.point ≤
          Problem.aboveOne.objective y + 1 / 2 *
            (∑ i, |y.get i - PrimalDual.halfWay.point.get i| +
              ∑ i, max 1 |y.get i - PrimalDual.halfWay.point.get i| +
              ∑ j, max 1 |(Problem.aboveOne.constraints.toMatrix *ᵥ
                (y.get - PrimalDual.halfWay.point.get)) j|) := by
  have hH := Problem.posDef_hessian_aboveOne.posSemidef
  obtain ⟨hnear, hexact, -⟩ := isOptimal_certifies hH PrimalDual.halfWay
  refine ⟨hH, isOptimal_halfWay, fun hoptimal => ?_, (hnear _ isOptimal_halfWay).2⟩
  have hbalance := (hexact.mp hoptimal).2.1 0
  rw [balance_halfWay] at hbalance
  norm_num at hbalance

end QuadraticProgram
