import QuadraticProgram.Proofs.Exact.Dense
import QuadraticProgram.Proofs.Pattern.Fill
import QuadraticProgram.Proofs.Solver

/-! # The pattern check and the assembly

A problem is checked block by block, against the pattern of the Hessian and that of the rows, and
assembled against the composed pattern. An entry is lost in the assembly exactly when the check
finds it. The change for an active set works on the padded pattern, which has room for all that was
assembled, so a column that it keeps is lost or whole together with the assembly. No arithmetic is
done on the way, and all of this holds of values as they are given, as long as zero is one of them.
-/
namespace QuadraticProgram

section SameAsGiven

variable {α : Type} [Scalar α]

/-- The values are the same, where all zeros count as one. -/
def Scalar.SameAsGiven (a b : α) : Prop := a = b ∨ isZero a = true ∧ isZero b = true

theorem sameAsGiven_real_iff (a b : ℝ) : Scalar.SameAsGiven a b ↔ a = b := by
  rw [Scalar.SameAsGiven, Pattern.isZero_real, Pattern.isZero_real]
  exact or_iff_left_of_imp fun h => h.1.trans h.2.symm

theorem sameAsGiven_restrict_iff (hzero : Scalar.isZero (0 : α) = true) {k l : ℕ}
    (P : Pattern k l) (M : Mat α k l) (i : Fin k) (j : Fin l) :
    Scalar.SameAsGiven ((P.restrict M).entry i j) (M.entry i j) ↔
      (Scalar.isZero (M.entry i j) = false → P.entry i j = true) := by
  rw [Pattern.entry_restrict]
  by_cases hp : P.entry i j = true
  · rw [if_pos hp]
    exact iff_of_true (Or.inl rfl) fun _ => hp
  · rw [if_neg hp]
    constructor
    · rintro (heq | ⟨-, hentry⟩) hnonzero
      · exact absurd (hzero.symm.trans (heq ▸ hnonzero)) Bool.noConfusion
      · exact absurd (hentry.symm.trans hnonzero) Bool.noConfusion
    · intro h
      refine Or.inr ⟨hzero, ?_⟩
      by_contra hentry
      exact hp (h (Bool.not_eq_true _ ▸ hentry))

end SameAsGiven

namespace Pattern

variable {α : Type} [Scalar α] {k l n m : ℕ}

theorem not_misses_iff_forall {P : Pattern k l} {M : Mat α k l} :
    ¬ P.Misses M ↔ ∀ i j, Scalar.isZero (M.entry i j) = false → P.entry i j = true := by
  simp only [Misses, entry_nonzeros, Bool.not_eq_true', not_exists, not_and, Bool.not_eq_false]

theorem not_misses_iff_sameAsGiven (hzero : Scalar.isZero (0 : α) = true) {P : Pattern k l}
    {M : Mat α k l} :
    ¬ P.Misses M ↔ ∀ i j, Scalar.SameAsGiven ((P.restrict M).entry i j) (M.entry i j) := by
  simp only [not_misses_iff_forall, sameAsGiven_restrict_iff hzero]

/-- Both halves of the check together look at every block of the composed pattern. -/
theorem misses_kkt_iff (hzero : Scalar.isZero (0 : α) = true) {h : Pattern n n} {a : Pattern m n}
    {H : Mat α n n} {A : Mat α m n} :
    (kkt h a).Misses (Mat.bordered H A 0) ↔ h.symmetrize.Misses H ∨ a.Misses A := by
  rw [← not_iff_not, not_or]
  simp only [not_misses_iff_forall, kkt, Fin.forall_fin_add, Mat.entry_bordered_castAdd_castAdd,
    Mat.entry_bordered_castAdd_natAdd, Mat.entry_bordered_natAdd_castAdd,
    Mat.entry_bordered_natAdd_natAdd, hzero]
  constructor
  · rintro ⟨hvariables, hrows⟩
    exact ⟨fun i => (hvariables i).1, fun j => (hrows j).1⟩
  · rintro ⟨hH, hA⟩
    exact ⟨fun i => ⟨hH i, fun j => hA j i⟩, fun j => ⟨hA j, fun _ h => Bool.noConfusion h⟩⟩

end Pattern

variable {α β : Type} [Scalar α] [Bound α β] {n m : ℕ}

namespace Analysis

variable {h : Pattern n n} {a : Pattern m n} {rule : ColumnOrder} {Q : Problem α β n m}
variable {status : Vector Status (n + m)} {q : Fin (n + m)}

/-- A kept column is what the assembly left of it. -/
theorem entry_modify_assemble (hq : (pinned? status q : Option α) = none) (p : Fin (n + m)) :
    ((analyze h a rule).modify ((analyze h a rule).assemble Q) status).entry p q =
      ((analyze h a rule).assemble Q).entry p q := by
  have hpadded : (analyze h a rule).padded.entry p q =
      ((analyze h a rule).kkt.entry p q || p == q) := Pattern.entry_addDiagonal _ p q
  rw [entry_modify, hq]
  dsimp only
  by_cases hp : (analyze h a rule).padded.entry p q = true
  · rw [if_pos hp]
  · rw [hpadded, Bool.or_eq_true, not_or] at hp
    rw [hpadded, assemble, Pattern.entry_restrict, if_neg hp.1, ite_self]

def rowsHeld (n m : ℕ) : Vector Status (n + m) :=
  join (Vector.ofFn fun _ => .inactive) (Vector.ofFn fun _ => .lower)

theorem pinned?_rowsHeld (q : Fin (n + m)) : (pinned? (rowsHeld n m) q : Option α) = none := by
  refine Fin.addCases (fun i => ?_) (fun j => ?_) q
  · rw [pinned?_castAdd, rowsHeld, get_join_castAdd, get_ofFn]
    exact if_neg fun hactive => hactive rfl
  · rw [pinned?_natAdd, rowsHeld, get_join_natAdd, get_ofFn]
    exact if_pos Status.noConfusion

theorem forall_kept_iff (M : Mat α (n + m) (n + m)) :
    (∀ status q, (pinned? status q : Option α) = none → ∀ p, Scalar.SameAsGiven
        (((analyze h a rule).modify ((analyze h a rule).assemble Q) status).entry p q)
        (M.entry p q)) ↔
      ∀ p q, Scalar.SameAsGiven (((analyze h a rule).assemble Q).entry p q) (M.entry p q) := by
  constructor
  · intro hkept p q
    have hcolumn := hkept (rowsHeld n m) q (pinned?_rowsHeld q) p
    rwa [entry_modify_assemble (pinned?_rowsHeld q)] at hcolumn
  · intro hwhole status q hq p
    rw [entry_modify_assemble hq]
    exact hwhole p q

end Analysis

section Corner

noncomputable def Problem.corner : Problem ℝ EReal 2 1 where
  hessian := Mat.ofFn fun i j => if i ≤ j then 1 else 0
  linear := Vector.ofFn fun _ => 0
  constraints := Mat.ofFn fun _ i => if i.val = 0 then 1 else 0
  lower := Vector.ofFn fun _ => ⊥
  upper := Vector.ofFn fun _ => ⊤
  ordered e := by
    rw [get_ofFn, get_ofFn]
    exact decide_eq_false not_top_lt

theorem entry_constraints_corner (j : Fin 1) (i : Fin 2) :
    Problem.corner.constraints.entry j i = if i.val = 0 then 1 else 0 := Mat.entry_ofFn _ j i

theorem isZero_zero_real : Scalar.isZero (0 : ℝ) = true := (Pattern.isZero_real 0).mpr rfl

end Corner

namespace Solver

variable {P Q : Problem α β n m} {solver : Solver n m} {ordering : String} {budget : Int}
variable {verbose : Bool}

theorem analysis_of_create (h : create P ordering budget verbose = .ok solver) :
    ∃ rule, solver.analysis = P.analyze rule := by
  obtain ⟨rule, -, h⟩ := bind_eq_ok h
  obtain ⟨settings, -, h⟩ := bind_eq_ok h
  cases h
  exact ⟨rule, rfl⟩

theorem accept_of_misses (hn : 0 < n)
    (h : solver.analysis.hessian.Misses Q.hessian ∨
      solver.analysis.constraints.Misses Q.constraints) :
    solver.accept ⟨n, m, Q, hn⟩ = .error .outsidePattern := by
  rw [accept, dif_pos ⟨rfl, rfl⟩]
  exact if_pos h

theorem accept_eq_ok_iff (hn : 0 < n) :
    solver.accept ⟨n, m, Q, hn⟩ = .ok Q ↔
      ¬ (solver.analysis.hessian.Misses Q.hessian ∨
        solver.analysis.constraints.Misses Q.constraints) := by
  refine ⟨fun hok hmisses => ?_, fun hnot => ?_⟩
  · rw [accept_of_misses hn hmisses] at hok
    cases hok
  · exact accept_of_not_misses hn (not_or.mp hnot).1 (not_or.mp hnot).2

theorem accept_eq_error_iff (hn : 0 < n) :
    solver.accept ⟨n, m, Q, hn⟩ = .error .outsidePattern ↔
      (solver.analysis.hessian.Misses Q.hessian ∨
        solver.analysis.constraints.Misses Q.constraints) := by
  refine ⟨fun herror => ?_, accept_of_misses hn⟩
  by_contra hnot
  rw [(accept_eq_ok_iff hn).mpr hnot] at herror
  cases herror

/-- A solver that was set up for `P` accepts a problem of the same size exactly when the assembly
drops no entry of it, which is when every column that an active set keeps is whole. It refuses the
others for their pattern. Among the accepted problems are `P` itself and all whose nonzero entries
are among those of `P`, up to transposition in the Hessian. -/
theorem accept_iff_assembled_whole (hzero : Scalar.isZero (0 : α) = true) (hn : 0 < n)
    (hsolver : create P ordering budget verbose = .ok solver) :
    (∀ Q : Problem α β n m,
      let S := solver.analysis
      let K := Mat.bordered Q.hessian Q.constraints 0
      (solver.accept ⟨n, m, Q, hn⟩ = .ok Q ↔
        ∀ p q, Scalar.SameAsGiven ((S.assemble Q).entry p q) (K.entry p q)) ∧
      (solver.accept ⟨n, m, Q, hn⟩ = .error .outsidePattern ↔
        ¬ ∀ p q, Scalar.SameAsGiven ((S.assemble Q).entry p q) (K.entry p q)) ∧
      ((∀ p q, Scalar.SameAsGiven ((S.assemble Q).entry p q) (K.entry p q)) ↔
        ∀ status q, (pinned? status q : Option α) = none → ∀ p,
          Scalar.SameAsGiven ((S.modify (S.assemble Q) status).entry p q) (K.entry p q))) ∧
    solver.accept ⟨n, m, P, hn⟩ = .ok P ∧
    ∀ Q : Problem α β n m,
      (∀ i j, Scalar.isZero (Q.hessian.entry i j) = false →
        Scalar.isZero (P.hessian.entry i j) = false ∨
          Scalar.isZero (P.hessian.entry j i) = false) →
      (∀ j i, Scalar.isZero (Q.constraints.entry j i) = false →
        Scalar.isZero (P.constraints.entry j i) = false) →
      solver.accept ⟨n, m, Q, hn⟩ = .ok Q := by
  obtain ⟨rule, hrule⟩ := analysis_of_create hsolver
  have hwhole : ∀ Q : Problem α β n m,
      ¬ (solver.analysis.hessian.Misses Q.hessian ∨
          solver.analysis.constraints.Misses Q.constraints) ↔
        ∀ p q, Scalar.SameAsGiven ((solver.analysis.assemble Q).entry p q)
          ((Mat.bordered Q.hessian Q.constraints 0).entry p q) := by
    intro Q
    rw [hrule]
    exact (Pattern.misses_kkt_iff hzero).not.symm.trans (Pattern.not_misses_iff_sameAsGiven hzero)
  have hwithin : ∀ Q : Problem α β n m,
      (∀ i j, Scalar.isZero (Q.hessian.entry i j) = false →
        Scalar.isZero (P.hessian.entry i j) = false ∨
          Scalar.isZero (P.hessian.entry j i) = false) →
      (∀ j i, Scalar.isZero (Q.constraints.entry j i) = false →
        Scalar.isZero (P.constraints.entry j i) = false) →
      solver.accept ⟨n, m, Q, hn⟩ = .ok Q := by
    intro Q hH hA
    refine accept_of_not_misses hn ?_ ?_
    · rw [hrule, Pattern.not_misses_iff_forall]
      intro i j hentry
      change (Pattern.nonzeros P.hessian).symmetrize.entry i j = true
      simpa using hH i j hentry
    · rw [hrule, Pattern.not_misses_iff_forall]
      intro j i hentry
      change (Pattern.nonzeros P.constraints).entry j i = true
      simpa using hA j i hentry
  refine ⟨fun Q => ⟨?_, ?_, ?_⟩, hwithin P (fun i j h => Or.inl h) fun j i h => h, hwithin⟩
  · exact (accept_eq_ok_iff hn).trans (hwhole Q)
  · rw [← hwhole Q, not_not]
    exact accept_eq_error_iff hn
  · rw [hrule]
    exact (Analysis.forall_kept_iff _).symm

/-- The entries below the diagonal are accepted in place of those above it, and an entry in the
other column of the row is not. -/
theorem accept_iff_assembled_whole_corner :
    let P := Problem.corner
    let Q := { P with hessian := P.hessian.transpose }
    let R := { P with constraints := Mat.ofFn fun _ _ => 1 }
    ∃ solver, create P "natural" 10 false = .ok solver ∧
      solver.accept ⟨2, 1, P, two_pos⟩ = .ok P ∧ solver.accept ⟨2, 1, Q, two_pos⟩ = .ok Q ∧
      solver.analysis.assemble Q = Mat.bordered Q.hessian Q.constraints 0 ∧
      solver.accept ⟨2, 1, R, two_pos⟩ = .error .outsidePattern := by
  intro P Q R
  let solver : Solver 2 1 := ⟨P.analyze .natural, ⟨10, false, by decide⟩⟩
  have hsolver : create P "natural" 10 false = .ok solver := rfl
  obtain ⟨hiff, hown, hwithin⟩ := accept_iff_assembled_whole isZero_zero_real two_pos hsolver
  have hQ : solver.accept ⟨2, 1, Q, two_pos⟩ = .ok Q := by
    refine hwithin Q (fun i j h => Or.inr ?_) fun j i h => h
    have htransposed : Q.hessian.entry i j = P.hessian.entry j i := Mat.entry_transpose _ i j
    rwa [htransposed] at h
  have hassembled := ((hiff Q).1.mp hQ)
  refine ⟨solver, hsolver, hown, hQ, ?_, (hiff R).2.1.mpr fun hwhole => ?_⟩
  · exact Mat.ext_entry fun p q => (sameAsGiven_real_iff _ _).mp (hassembled p q)
  · have hentry := (sameAsGiven_real_iff _ _).mp (hwhole (Fin.natAdd 2 0) (Fin.castAdd 1 1))
    have hunmarked : solver.analysis.kkt.entry (Fin.natAdd 2 0) (Fin.castAdd 1 1) = false := by
      change (Pattern.kkt (Pattern.nonzeros P.hessian) (Pattern.nonzeros P.constraints)).entry
        (Fin.natAdd 2 0) (Fin.castAdd 1 1) = false
      rw [Pattern.kkt, Mat.entry_bordered_natAdd_castAdd, Pattern.entry_nonzeros,
        entry_constraints_corner, if_neg (by decide), isZero_zero_real]
      rfl
    have hone : R.constraints.entry 0 1 = 1 := Mat.entry_ofFn _ 0 1
    rw [Analysis.assemble, Pattern.entry_restrict, hunmarked, Mat.entry_bordered_natAdd_castAdd,
      hone, if_neg Bool.false_ne_true] at hentry
    exact zero_ne_one hentry

end Solver

end QuadraticProgram
