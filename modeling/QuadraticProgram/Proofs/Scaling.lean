import QuadraticProgram.Proofs.Exact.Uniform
import QuadraticProgram.Proofs.Rescaling
import QuadraticProgram.Proofs.StepLength

/-! # The scaled objective

Scaling Hessian and gradient by a positive number scales the multipliers. Nothing that is decided
about one entry depends on that: only the sign of a multiplier is looked at, or the length at which
it vanishes. Without rows, and with nothing held, the whole system is scaled, and the pivot test
does not see that.
-/
namespace QuadraticProgram

variable {n m : ℕ}

section Entry

variable {c : ℝ} (hc : 0 < c)
include hc

theorem Status.ofSign_mul (l : ℝ) : ofSign (c * l) = ofSign l := by
  simp only [ofSign, mul_neg_iff_of_pos hc, mul_pos_iff_of_pos_left hc]

theorem Status.seed_mul (lb ub : EReal) (v l : ℝ) : seed lb ub v (c * l) = seed lb ub v l := by
  unfold seed proposed
  rw [ofSign_mul hc]

theorem Status.followSign_mul (lb ub : EReal) (l : ℝ) (s : Status) :
    followSign lb ub (c * l) s = followSign lb ub l s := by
  simp only [followSign, mul_neg_iff_of_pos hc, mul_pos_iff_of_pos_left hc]

theorem candidate?_mul (lb ub : EReal) (v d : ℝ) (s : Status) (l δ : ℝ) :
    candidate? lb ub v d s (c * l) (c * δ) = candidate? lb ub v d s l δ := by
  have hsum : c * l + c * δ = c * (l + δ) := (mul_add c l δ).symm
  have hlength : -(c * l) / (c * δ) = -l / δ := by
    rw [← mul_neg, mul_div_mul_left _ _ hc.ne']
  cases s with
  | lower =>
    simp only [candidate?, hsum, hlength, mul_pos_iff_of_pos_left hc,
      mul_nonneg_iff_of_pos_left hc]
  | upper =>
    have hle : c * (l + δ) ≤ 0 ↔ l + δ ≤ 0 := by
      rw [← not_lt, ← not_lt, mul_pos_iff_of_pos_left hc]
    simp only [candidate?, hsum, hlength, mul_neg_iff_of_pos hc, hle]
  | _ => rfl

end Entry

noncomputable def scaleRows (c : ℝ) (z : Vector ℝ (n + m)) : Vector ℝ (n + m) :=
  join (onVariables z) (c • onRows z)

theorem get_onVariables_scaleRows (c : ℝ) (z : Vector ℝ (n + m)) :
    (onVariables (scaleRows c z)).get = (1 : ℝ) • (onVariables z).get := by
  rw [scaleRows, onVariables_join, one_smul]

theorem get_onRows_scaleRows (c : ℝ) (z : Vector ℝ (n + m)) :
    (onRows (scaleRows c z)).get = c • (onRows z).get := by
  rw [scaleRows, onRows_join, get_smul_eq]

noncomputable def ActiveSet.scale {k : ℕ} (c : ℝ) (s : ActiveSet ℝ k) : ActiveSet ℝ k :=
  { s with multiplier := c • s.multiplier }

theorem ActiveSet.eq_scale {k : ℕ} {c : ℝ} {s t : ActiveSet ℝ k}
    (hstatus : ∀ e, t.status.get e = s.status.get e)
    (hmultiplier : ∀ e, t.multiplier.get e = c * s.multiplier.get e) : t = s.scale c := by
  cases t
  exact congr (congrArg _ (vector_ext hstatus))
    (vector_ext fun e => (hmultiplier e).trans (get_smul c _ e).symm)

theorem ActiveSet.rescales_scale {k : ℕ} (c : ℝ) (s : ActiveSet ℝ k) : s.Rescales c (s.scale c) :=
  ⟨get_smul c s.multiplier, fun _ => Iff.rfl⟩

namespace Problem

noncomputable def scale (c : ℝ) (P : Problem ℝ EReal n m) : Problem ℝ EReal n m :=
  { P with
    hessian := P.hessian.map (c * ·)
    linear := c • P.linear }

variable {c : ℝ} (P : Problem ℝ EReal n m)

theorem rescales_scale (c : ℝ) : P.Rescales 1 c (P.scale c) where
  hessian := by
    rw [one_smul]
    exact Matrix.ext fun i j => Mat.entry_map _ P.hessian i j
  linear := get_smul_eq c P.linear
  constraints := rfl

theorem objective_scale (x : Vector ℝ n) : (P.scale c).objective x = c * P.objective x := by
  rw [(P.rescales_scale c).objective (x := x) (one_smul ℝ x.get).symm, one_mul]

theorem analyze_scale (hc : c ≠ 0) (rule : ColumnOrder) :
    (P.scale c).analyze rule = P.analyze rule := by
  have hnonzeros : Pattern.nonzeros (P.scale c).hessian = Pattern.nonzeros P.hessian := by
    apply Mat.ext_entry
    intro i j
    rw [Pattern.entry_nonzeros, Pattern.entry_nonzeros, scale, Mat.entry_map]
    simp [Scalar.isZero, hc]
  rw [analyze, hnonzeros]
  rfl

theorem direction_scale (c : ℝ) (value : Vector ℝ (n + m)) (s : ActiveSet ℝ (n + m))
    (z : Vector ℝ (n + m)) (e : Fin (n + m)) :
    let d := (P.scale c).direction value (s.scale c) (scaleRows c z)
    d.value.get e = (P.direction value s z).value.get e ∧
      d.multiplier.get e = c * (P.direction value s z).multiplier.get e := by
  have hscaled := (P.rescales_scale c).direction (s.rescales_scale c)
    (get_onVariables_scaleRows c z) (get_onRows_scaleRows c z) (one_smul ℝ value.get).symm e
  rwa [one_mul] at hscaled

end Problem

namespace Analysis.Covers

theorem scale {S : Analysis n m} {P : Problem ℝ EReal n m} (hS : S.Covers P) (c : ℝ) :
    S.Covers (P.scale c) where
  analyzed := hS.analyzed
  hessian i j h := by
    refine hS.hessian i j fun hzero => h ?_
    rw [Problem.scale, Mat.entry_map, hzero, mul_zero]
  constraints := hS.constraints

/-- Without rows, and with nothing held, the whole system is scaled. -/
theorem entry_modify_scale {S : Analysis n 0} {P : Problem ℝ EReal n 0} (hS : S.Covers P) (c : ℝ)
    {status : Vector Status (n + 0)} (hfree : ∀ e, status.get e = .inactive) (p q : Fin (n + 0)) :
    (S.modify (S.assemble (P.scale c)) status).entry p q =
      c * (S.modify (S.assemble P) status).entry p q := by
  refine Fin.addCases (fun i => ?_) (fun j => j.elim0) q
  have hkept : (pinned? status (i.castAdd 0) : Option ℝ) = none := by
    rw [pinned?_castAdd, hfree]
    exact if_neg (not_not.mpr rfl)
  rw [(hS.scale c).entry_modify_of_kept hkept, hS.entry_modify_of_kept hkept]
  refine Fin.addCases (fun i' => ?_) (fun j => j.elim0) p
  rw [Mat.entry_bordered_castAdd_castAdd, Mat.entry_bordered_castAdd_castAdd, Problem.scale,
    Mat.entry_map]

theorem isSingular_factorize_scale_iff {S : Analysis n 0} {P : Problem ℝ EReal n 0}
    (hS : S.Covers P) {c : ℝ} (hc : 0 < c) (unit : ℝ) {status : Vector Status (n + 0)}
    (hfree : ∀ e, status.get e = .inactive) :
    (S.factorize (S.modify (S.assemble (P.scale c)) status)).IsSingular unit ↔
      (S.factorize (S.modify (S.assemble P) status)).IsSingular unit := by
  have hentry := hS.entry_modify_scale c hfree
  obtain ⟨⟨h, a, rule, rfl⟩, -, -⟩ := hS
  exact isSingular_factorize_mul_iff hc hentry

end Analysis.Covers

end QuadraticProgram
