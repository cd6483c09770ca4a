import Mathlib.LinearAlgebra.Matrix.Symmetric
import QuadraticProgram.Iteration
import QuadraticProgram.Proofs.Exact.Factorization
import QuadraticProgram.Proofs.Normals

/-! # The Newton step

For a problem inside the analysed pattern the changed matrix has the unit columns and the columns of
`[[H, Aᵀ], [A, 0]]` that its definition names, with nothing dropped. A solution of the transposed
system takes every held entry exactly onto its bound, and when the Hessian is symmetric the full
step balances the gradient of the Lagrangian.
-/
namespace QuadraticProgram
open Matrix

variable {n m : ℕ}

/-- The analysis is one of patterns under a rule, and the problem has no nonzero entry outside. -/
structure Analysis.Covers (S : Analysis n m) (P : Problem ℝ EReal n m) : Prop where
  analyzed : ∃ h a rule, S = analyze h a rule
  hessian : S.hessian.Covers P.hessian
  constraints : S.constraints.Covers P.constraints

theorem covers_analyze (P : Problem ℝ EReal n m) (rule : ColumnOrder) :
    (P.analyze rule).Covers P where
  analyzed := ⟨_, _, rule, rfl⟩
  hessian i j h := by
    have hij := Pattern.covers_nonzeros P.hessian i j h
    change (Pattern.nonzeros P.hessian).symmetrize.entry i j = true
    rw [Pattern.entry_symmetrize, hij, Bool.true_or]
  constraints := Pattern.covers_nonzeros P.constraints

namespace Analysis

variable {S : Analysis n m} {P : Problem ℝ EReal n m}

theorem Covers.assemble (hS : S.Covers P) :
    S.assemble P = Mat.bordered P.hessian P.constraints 0 := by
  obtain ⟨⟨h, a, rule, rfl⟩, hH, hA⟩ := hS
  change ∀ i i', _ → h.symmetrize.entry i i' = true at hH
  change ∀ j i, _ → a.entry j i = true at hA
  apply Pattern.Covers.restrict
  intro p q
  change _ → (Mat.bordered h.symmetrize a false).entry p q = true
  refine Fin.addCases (fun i => ?_) (fun j => ?_) p <;>
    refine Fin.addCases (fun i' => ?_) (fun j' => ?_) q
  · simpa using hH i i'
  · simpa using hA j' i
  · simpa using hA j i'
  · simp

theorem Covers.entry_padded (hS : S.Covers P) (p q : Fin (n + m)) :
    S.padded.entry p q = true ↔ S.kkt.entry p q = true ∨ p = q := by
  obtain ⟨⟨h, a, rule, rfl⟩, -, -⟩ := hS
  change (Pattern.kkt h a).addDiagonal.entry p q = true ↔ (Pattern.kkt h a).entry p q = true ∨ p = q
  rw [Pattern.entry_addDiagonal, Bool.or_eq_true, beq_iff_eq]

theorem Covers.padded (hS : S.Covers P) (K : Mat ℝ (n + m) (n + m))
    (status : Vector Status (n + m)) : S.padded.Covers (S.modify K status) := by
  intro p q hpq
  rw [entry_modify] at hpq
  cases hpin : (pinned? status q : Option ℝ) with
  | none =>
    by_contra hnot
    rw [hpin] at hpq
    exact hpq (if_neg hnot)
  | some d =>
    rw [hpin] at hpq
    rw [hS.entry_padded]
    right
    by_contra hne
    exact hpq (by simp [hne])

theorem Covers.isExact (hS : S.Covers P) (K : Mat ℝ (n + m) (n + m))
    (status : Vector Status (n + m)) :
    (S.factorize (S.modify K status)).IsExact (S.modify K status) := by
  have hM := hS.padded K status
  obtain ⟨⟨h, a, rule, rfl⟩, -, -⟩ := hS
  exact isExact_factorize hM

theorem Covers.entry_modify_of_kept (hS : S.Covers P) {status : Vector Status (n + m)}
    {q : Fin (n + m)} (hq : (pinned? status q : Option ℝ) = none) (p : Fin (n + m)) :
    (S.modify (S.assemble P) status).entry p q =
      (Mat.bordered P.hessian P.constraints 0).entry p q := by
  rw [entry_modify, hq, ← hS.assemble]
  dsimp only
  by_cases hpad : S.padded.entry p q = true
  · rw [if_pos hpad]
  · rw [hS.entry_padded, not_or, Bool.not_eq_true] at hpad
    have hout : (S.assemble P).entry p q = 0 := by
      rw [Analysis.assemble, Pattern.entry_restrict, hpad.1]
      rfl
    rw [hout, ite_self]

/-- The changed matrix does not depend on the analysis it is set up with. -/
theorem Covers.modify_eq {S' : Analysis n m} (hS : S.Covers P) (hS' : S'.Covers P)
    (status : Vector Status (n + m)) :
    S'.modify (S'.assemble P) status = S.modify (S.assemble P) status := by
  apply Mat.ext_entry
  intro p q
  cases hq : (pinned? status q : Option ℝ) with
  | none => rw [hS'.entry_modify_of_kept hq, hS.entry_modify_of_kept hq]
  | some d => rw [entry_modify, entry_modify, hq]

/-- The changed matrix depends on which entries are held, not on their sides. -/
theorem modify_congr {status status' : Vector Status (n + m)}
    (h : ∀ e, (status.get e).IsActive ↔ (status'.get e).IsActive) (S : Analysis n m)
    (K : Mat ℝ (n + m) (n + m)) : S.modify K status = S.modify K status' := by
  have hpinned : ∀ q, (pinned? status q : Option ℝ) = pinned? status' q := by
    intro q
    refine Fin.addCases (fun i => ?_) (fun j => ?_) q
    · rw [pinned?_castAdd, pinned?_castAdd]
      simp only [h]
    · rw [pinned?_natAdd, pinned?_natAdd]
      simp only [h]
  exact Mat.ext_entry fun p q => by rw [entry_modify, entry_modify, hpinned]

/-- A column that a pin replaces selects one component. -/
theorem vecMul_modify_of_pinned (K : Mat ℝ (n + m) (n + m)) {status : Vector Status (n + m)}
    {q : Fin (n + m)} {d : ℝ} (hq : (pinned? status q : Option ℝ) = some d)
    (z : Fin (n + m) → ℝ) : (z ᵥ* (S.modify K status).toMatrix) q = z q * d := by
  have hcolumn : ∀ p, (S.modify K status).entry p q = if p = q then d else 0 := by
    intro p
    rw [entry_modify, hq]
    dsimp only
    split_ifs <;> ring
  simp [vecMul, dotProduct, hcolumn]

theorem Covers.vecMul_modify_of_kept (hS : S.Covers P) {status : Vector Status (n + m)}
    {q : Fin (n + m)} (hq : (pinned? status q : Option ℝ) = none) (z : Fin (n + m) → ℝ) :
    (z ᵥ* (S.modify (S.assemble P) status).toMatrix) q =
      ∑ i : Fin n, z (i.castAdd m) *
          (Mat.bordered P.hessian P.constraints 0).entry (i.castAdd m) q +
        ∑ j : Fin m, z (j.natAdd n) *
          (Mat.bordered P.hessian P.constraints 0).entry (j.natAdd n) q := by
  rw [← Fin.sum_univ_add fun p => z p * (Mat.bordered P.hessian P.constraints 0).entry p q]
  simp only [← hS.entry_modify_of_kept hq]
  rfl

end Analysis

def Analysis.Solves (S : Analysis n m) (P : Problem ℝ EReal n m) (value : Vector ℝ (n + m))
    (s : ActiveSet ℝ (n + m)) (z : Vector ℝ (n + m)) : Prop :=
  z.get ᵥ* (S.modify (S.assemble P) s.status).toMatrix = (P.rightHandSide value s).get

/-- The iteration solves its system unless it reports a singular one. -/
theorem solves_attempt {S : Analysis n m} {unit : ℝ} (hunit : 0 ≤ unit) {P : Problem ℝ EReal n m}
    (hS : S.Covers P) {s : State ℝ n m} (hregular : ¬ (attempt S P s).IsSingular unit) :
    S.Solves P s.value s.active (attempt S P s).solution :=
  (hS.isExact (S.assemble P) s.active.status).vecMul_solveTransposed
    (Factorization.entry_ne_zero_of_not_isSingular hunit fun hs => hregular (Or.inl hs)) _

theorem isUnit_modify_of_not_isSingular {S : Analysis n m} {unit : ℝ} (hunit : 0 ≤ unit)
    {P : Problem ℝ EReal n m} (hS : S.Covers P) {s : State ℝ n m}
    (hregular : ¬ (attempt S P s).IsSingular unit) :
    IsUnit (S.modify (S.assemble P) s.active.status).toMatrix :=
  (hS.isExact (S.assemble P) s.active.status).isUnit_iff.mpr
    (Factorization.entry_ne_zero_of_not_isSingular hunit fun hs => hregular (Or.inl hs))

/-- Every exact solution is finite, so only the pivots are looked at. -/
theorem Attempt.isSingular_iff {unit : ℝ} (a : Attempt ℝ n m) :
    a.IsSingular unit ↔ a.factorization.IsSingular unit :=
  or_iff_left fun ⟨_, he⟩ => absurd he (by simp [Scalar.isFinite])

/-- A system is singular or not whatever the values are. -/
theorem isSingular_attempt_congr {S : Analysis n m} {unit : ℝ} {P : Problem ℝ EReal n m}
    {s t : State ℝ n m}
    (h : ∀ e, (s.active.status.get e).IsActive ↔ (t.active.status.get e).IsActive) :
    (attempt S P s).IsSingular unit ↔ (attempt S P t).IsSingular unit := by
  have hfactors : (attempt S P s).factorization = (attempt S P t).factorization :=
    congrArg S.factorize (Analysis.modify_congr h S _)
  rw [Attempt.isSingular_iff, Attempt.isSingular_iff, hfactors]

theorem isSingular_zero_attempt_iff {S : Analysis n m} {P : Problem ℝ EReal n m} (hS : S.Covers P)
    (s : State ℝ n m) :
    (attempt S P s).IsSingular 0 ↔
      ¬ IsUnit (S.modify (S.assemble P) s.active.status).toMatrix := by
  have hexact := hS.isExact (S.assemble P) s.active.status
  have hfactors : (attempt S P s).factorization.IsSingular 0 ↔
      ∃ k, (attempt S P s).factorization.triangle.entry k k = 0 :=
    Factorization.isSingular_zero_iff
  rw [hexact.isUnit_iff, Attempt.isSingular_iff, hfactors]
  push Not
  exact Iff.rfl

namespace Problem

variable {S : Analysis n m} {P : Problem ℝ EReal n m}
variable {value : Vector ℝ (n + m)} {s : ActiveSet ℝ (n + m)} {z : Vector ℝ (n + m)}

/-- How far the gradient of the Lagrangian, with the multipliers of the variables, is from zero. -/
noncomputable def balance (P : Problem ℝ EReal n m) (x : Vector ℝ n)
    (multiplier : Vector ℝ (n + m)) (i : Fin n) : ℝ :=
  (P.gradient x (onRows multiplier)).get i + multiplier.get (i.castAdd m)

theorem value_direction (P : Problem ℝ EReal n m) (value : Vector ℝ (n + m))
    (s : ActiveSet ℝ (n + m)) (z : Vector ℝ (n + m)) :
    (P.direction value s z).value = P.valuesAt (onVariables z) := rfl

theorem get_multiplier_direction_natAdd (P : Problem ℝ EReal n m) (value : Vector ℝ (n + m))
    (s : ActiveSet ℝ (n + m)) (z : Vector ℝ (n + m)) (j : Fin m) :
    (P.direction value s z).multiplier.get (j.natAdd n) =
      if (s.status.get (j.natAdd n)).IsActive then z.get (j.natAdd n) else 0 := by
  simp [direction]

/-- A held variable takes the multiplier that balances the gradient after a full step. -/
theorem get_multiplier_direction_castAdd {x : Vector ℝ n} {y : Vector ℝ m}
    (hx : ∀ i, x.get i = value.get (i.castAdd m) + (onVariables z).get i)
    (hy : ∀ j, y.get j = s.multiplier.get (j.natAdd n) +
      (P.direction value s z).multiplier.get (j.natAdd n)) (i : Fin n) :
    (P.direction value s z).multiplier.get (i.castAdd m) =
      if (s.status.get (i.castAdd m)).IsActive then
        -(P.gradient x y).get i - s.multiplier.get (i.castAdd m)
      else 0 := by
  have hxofFn : x = Vector.ofFn fun i => value.get (i.castAdd m) + (onVariables z).get i :=
    vector_ext fun i' => by rw [hx, get_ofFn]
  have hyofFn : y = Vector.ofFn fun j => s.multiplier.get (j.natAdd n) +
      if (s.status.get (j.natAdd n)).IsActive then z.get (j.natAdd n) else 0 :=
    vector_ext fun j => by rw [hy, get_ofFn, get_multiplier_direction_natAdd]
  rw [hxofFn, hyofFn]
  simp [direction]

theorem get_multiplier_direction_of_inactive {e : Fin (n + m)} (he : s.status.get e = .inactive) :
    (P.direction value s z).multiplier.get e = 0 := by
  revert he
  refine Fin.addCases (fun i he => ?_) (fun j he => ?_) e
  · simp [direction, he]
  · simp [direction, he]

section Columns

variable {status : Vector Status (n + m)} {w : Fin (n + m) → ℝ}

theorem vecMul_modify_of_isActive (hS : S.Covers P) {e : Fin (n + m)}
    (he : (status.get e).IsActive) :
    (w ᵥ* (S.modify (S.assemble P) status).toMatrix) e =
      P.normal e ⬝ᵥ fun i => w (i.castAdd m) := by
  revert he
  refine Fin.addCases (fun i he => ?_) (fun j he => ?_) e
  · rw [Analysis.vecMul_modify_of_pinned _ (d := 1) (by simp [he]), normal_castAdd,
      single_one_dotProduct, mul_one]
  · rw [hS.vecMul_modify_of_kept (by simp [he]), normal_natAdd, dotProduct]
    simp [mul_comm]

theorem vecMul_modify_castAdd_of_inactive (hH : P.hessian.toMatrix.IsSymm) (hS : S.Covers P)
    {i : Fin n} (hi : status.get (i.castAdd m) = .inactive) :
    (w ᵥ* (S.modify (S.assemble P) status).toMatrix) (i.castAdd m) =
      (P.hessian.toMatrix *ᵥ fun i => w (i.castAdd m)) i +
        ((fun j : Fin m => w (j.natAdd n)) ᵥ* P.constraints.toMatrix) i := by
  rw [hS.vecMul_modify_of_kept (by simp [hi]), toMatrix_mulVec_apply, toMatrix_vecMul_apply]
  congr 1
  · refine Finset.sum_congr rfl fun i' _ => ?_
    have hsymm : P.hessian.entry i i' = P.hessian.entry i' i := hH.apply i' i
    rw [Mat.entry_bordered_castAdd_castAdd, mul_comm, hsymm]
  · exact Finset.sum_congr rfl fun j _ => by rw [Mat.entry_bordered_natAdd_castAdd]

theorem vecMul_modify_natAdd_of_inactive (S : Analysis n m) (P : Problem ℝ EReal n m) {j : Fin m}
    (hj : status.get (j.natAdd n) = .inactive) :
    (w ᵥ* (S.modify (S.assemble P) status).toMatrix) (j.natAdd n) = -w (j.natAdd n) := by
  rw [Analysis.vecMul_modify_of_pinned _ (d := -1) (by simp [hj]), mul_neg_one]

end Columns

section Equations

/-- The equation of a held entry takes it exactly onto its bound. -/
theorem equation_iff_of_isActive (hS : S.Covers P) {e : Fin (n + m)}
    (he : (s.status.get e).IsActive) :
    (z.get ᵥ* (S.modify (S.assemble P) s.status).toMatrix) e = (P.rightHandSide value s).get e ↔
      value.get e + (P.valuesAt (onVariables z)).get e =
        (s.status.get e).heldAt (P.lower.get e) (P.upper.get e) := by
  have hz : (fun i : Fin n => z.get (i.castAdd m)) = (onVariables z).get :=
    funext fun i => (get_onVariables z i).symm
  rw [vecMul_modify_of_isActive hS he, get_rightHandSide_of_isActive P value s e he, hz,
    get_valuesAt_eq_dotProduct, neg_sub, eq_sub_iff_add_eq, add_comm]

/-- The equation of a free variable changes the gradient to zero. -/
theorem equation_castAdd_iff_of_inactive (hH : P.hessian.toMatrix.IsSymm) (hS : S.Covers P)
    {i : Fin n} (hi : s.status.get (i.castAdd m) = .inactive) :
    (z.get ᵥ* (S.modify (S.assemble P) s.status).toMatrix) (i.castAdd m) =
        (P.rightHandSide value s).get (i.castAdd m) ↔
      (P.hessian.toMatrix *ᵥ (onVariables z).get) i +
          ((onRows z).get ᵥ* P.constraints.toMatrix) i =
        -(P.gradient (onVariables value) (onRows s.multiplier)).get i := by
  have hx : (fun i : Fin n => z.get (i.castAdd m)) = (onVariables z).get :=
    funext fun i => (get_onVariables z i).symm
  have hy : (fun j : Fin m => z.get (j.natAdd n)) = (onRows z).get :=
    funext fun j => (get_onRows z j).symm
  rw [vecMul_modify_castAdd_of_inactive hH hS hi, get_rightHandSide_castAdd P value s i hi, hx, hy]

/-- The equation of a free row leaves its multiplier alone. -/
theorem equation_natAdd_iff_of_inactive (S : Analysis n m) (P : Problem ℝ EReal n m) {j : Fin m}
    (hj : s.status.get (j.natAdd n) = .inactive) :
    (z.get ᵥ* (S.modify (S.assemble P) s.status).toMatrix) (j.natAdd n) =
        (P.rightHandSide value s).get (j.natAdd n) ↔ z.get (j.natAdd n) = 0 := by
  rw [vecMul_modify_natAdd_of_inactive S P hj, get_rightHandSide_natAdd P value s j hj, neg_inj]

end Equations

/-- A solution of the system takes every held entry exactly onto its bound. -/
theorem value_add_direction (hS : S.Covers P)
    (hz : S.Solves P value s z) {e : Fin (n + m)}
    (he : (s.status.get e).IsActive) :
    value.get e + (P.direction value s z).value.get e =
      (s.status.get e).heldAt (P.lower.get e) (P.upper.get e) :=
  (equation_iff_of_isActive hS he).mp (congrFun hz e)

theorem get_solution_natAdd_of_inactive (hz : S.Solves P value s z) {j : Fin m}
    (hj : s.status.get (j.natAdd n) = .inactive) : z.get (j.natAdd n) = 0 :=
  (equation_natAdd_iff_of_inactive S P hj).mp (congrFun hz _)

theorem onRows_multiplier_direction (hz : S.Solves P value s z) :
    onRows (P.direction value s z).multiplier = onRows z := by
  apply vector_ext
  intro j
  rw [get_onRows, get_onRows, get_multiplier_direction_natAdd]
  by_cases hj : s.status.get (j.natAdd n) = .inactive
  · rw [if_neg (by simp [hj]), get_solution_natAdd_of_inactive hz hj]
  · rw [if_pos hj]

/-- The equation of a free variable: the step changes the gradient to zero. -/
theorem gradient_change_of_inactive (hH : P.hessian.toMatrix.IsSymm)
    (hS : S.Covers P) (hz : S.Solves P value s z) {i : Fin n}
    (hi : s.status.get (i.castAdd m) = .inactive) :
    (P.hessian.toMatrix *ᵥ (onVariables z).get) i +
        ((onRows (P.direction value s z).multiplier).get ᵥ* P.constraints.toMatrix) i =
      -(P.gradient (onVariables value) (onRows s.multiplier)).get i := by
  rw [onRows_multiplier_direction hz]
  exact (equation_castAdd_iff_of_inactive hH hS hi).mp (congrFun hz _)

/-- The full step balances the gradient of the Lagrangian. -/
theorem balance_full_step (hH : P.hessian.toMatrix.IsSymm) (hS : S.Covers P)
    (hz : S.Solves P value s z)
    (hfree : ∀ i : Fin n, s.status.get (i.castAdd m) = .inactive →
      s.multiplier.get (i.castAdd m) = 0)
    {x : Vector ℝ n} {multiplier : Vector ℝ (n + m)}
    (hx : ∀ i, x.get i = value.get (i.castAdd m) + (onVariables z).get i)
    (hl : ∀ e, multiplier.get e =
      s.multiplier.get e + (P.direction value s z).multiplier.get e) (i : Fin n) :
    P.balance x multiplier i = 0 := by
  by_cases hi : s.status.get (i.castAdd m) = .inactive
  · have hxget : x.get = (onVariables value).get + (onVariables z).get := by
      funext i'
      rw [hx, Pi.add_apply, get_onVariables value]
    have hyget : (onRows multiplier).get =
        (onRows s.multiplier).get + (onRows (P.direction value s z).multiplier).get := by
      funext j
      rw [get_onRows, hl, Pi.add_apply, get_onRows, get_onRows]
    have hchange := gradient_change_of_inactive hH hS hz hi
    rw [gradient_real] at hchange
    rw [balance, gradient_real, hxget, hyget, hl, hfree _ hi,
      get_multiplier_direction_of_inactive hi, mulVec_add, add_vecMul]
    simp only [Pi.add_apply] at hchange ⊢
    linarith
  · have hy : ∀ j, (onRows multiplier).get j = s.multiplier.get (j.natAdd n) +
        (P.direction value s z).multiplier.get (j.natAdd n) := fun j => by rw [get_onRows, hl]
    rw [balance, hl, get_multiplier_direction_castAdd hx hy, if_pos hi]
    ring

section Balance

theorem balance_eq_tilt (P : Problem ℝ EReal n m) (x : Vector ℝ n)
    (multiplier : Vector ℝ (n + m)) (i : Fin n) :
    P.balance x multiplier i = P.tilt x.get multiplier.get i + P.linear.get i := by
  have hy : (onRows multiplier).get = fun j : Fin m => multiplier.get (j.natAdd n) :=
    funext fun j => get_onRows multiplier j
  rw [balance, gradient_real, tilt_apply, hy, Pi.add_apply, Pi.add_apply]
  ring

/-- The balance moves along a step as far as the point and the multipliers do. -/
theorem balance_add_smul {x y d : Vector ℝ n} {l k δ : Vector ℝ (n + m)} (t : ℝ)
    (hy : ∀ i, y.get i = x.get i + t * d.get i) (hk : ∀ e, k.get e = l.get e + t * δ.get e)
    (i : Fin n) : P.balance y k i = P.balance x l i + t * P.tilt d.get δ.get i := by
  have hpoint : y.get = x.get + t • d.get := funext hy
  have hmultiplier : k.get = l.get + t • δ.get := funext hk
  rw [balance_eq_tilt, balance_eq_tilt, hpoint, hmultiplier, tilt_add_smul, Pi.add_apply,
    Pi.smul_apply, smul_eq_mul]
  ring

/-- The Newton direction tilts the balance by its opposite. -/
theorem tilt_direction (hH : P.hessian.toMatrix.IsSymm) (hS : S.Covers P)
    (hz : S.Solves P value s z)
    (hfree : ∀ i : Fin n, s.status.get (i.castAdd m) = .inactive →
      s.multiplier.get (i.castAdd m) = 0) (i : Fin n) :
    P.tilt (onVariables z).get (P.direction value s z).multiplier.get i =
      -P.balance (onVariables value) s.multiplier i := by
  let x : Vector ℝ n := Vector.ofFn fun i => value.get (i.castAdd m) + (onVariables z).get i
  let l : Vector ℝ (n + m) :=
    Vector.ofFn fun e => s.multiplier.get e + (P.direction value s z).multiplier.get e
  have hx : ∀ i, x.get i = value.get (i.castAdd m) + (onVariables z).get i := fun i => get_ofFn _ i
  have hl : ∀ e, l.get e = s.multiplier.get e + (P.direction value s z).multiplier.get e :=
    fun e => get_ofFn _ e
  have hfull : P.balance x l i = 0 := balance_full_step hH hS hz hfree hx hl i
  have hmove : P.balance x l i = P.balance (onVariables value) s.multiplier i +
      1 * P.tilt (onVariables z).get (P.direction value s z).multiplier.get i :=
    balance_add_smul 1 (fun i => by rw [hx, one_mul, get_onVariables value])
      (fun e => by rw [hl, one_mul]) i
  linarith

end Balance

end Problem

end QuadraticProgram
