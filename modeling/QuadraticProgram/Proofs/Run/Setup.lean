import QuadraticProgram.Proofs.Run.Lockstep
import QuadraticProgram.Proofs.Run.Success

/-! # What the setup decides

The fill of a pattern bounds the factors of every matrix inside it, so the masks of an analysis
change no factor of a problem that it covers, whatever entries are held. Two analyses that cover the
same problem set up the same changed matrix, each factorizes it exactly, and an invertible one has
one solution. So the runs on the two pass through the same states, up to what a singular iteration
reports.
-/
namespace QuadraticProgram

variable {n m : ℕ}

/-- The fill loses nothing: no nonzero entry of the packed factors is outside it, and under an
analysis that covers a problem both factors are the packed ones, for every active set. -/
theorem masks_lose_nothing {k : ℕ} {pattern : Pattern k k} {M : Mat ℝ k k}
    (hM : pattern.Covers M) (order : Vector (Fin k) k) {S : Analysis n m}
    {P : Problem ℝ EReal n m} (hS : S.Covers P) :
    (∀ i j, (Packed.eliminate (M.permuteColumns order)).matrix.entry i j ≠ 0 →
      (j < i → (pattern.reflectorFill order).entry i j = true) ∧
        (i ≤ j → (pattern.triangleFill order).entry i j = true)) ∧
    ∀ status : Vector Status (n + m),
      let changed := S.modify (S.assemble P) status
      let packed := (Packed.eliminate (changed.permuteColumns S.order)).matrix
      ∀ i j, (S.factorize changed).reflectors.entry i j =
          (if j < i then packed.entry i j else 0) ∧
        (S.factorize changed).triangle.entry i j = if j < i then 0 else packed.entry i j := by
  refine ⟨fun i j hij => ?_, fun status => ?_⟩
  · have hfill : (pattern.fill order).entry i j = true := hM.eliminateTo order le_rfl i j hij
    refine ⟨fun hji => ?_, fun hle => ?_⟩
    · simp [Pattern.reflectorFill, hji, hfill]
    · simp [Pattern.triangleFill, hle, hfill]
  · intro changed packed i j
    have hpadded : S.padded.Covers changed := hS.padded (S.assemble P) status
    obtain ⟨⟨h, a, rule, rfl⟩, -, -⟩ := hS
    exact ⟨entry_reflectors_factorize hpadded i j, entry_triangle_factorize hpadded i j⟩

noncomputable def exchange : Mat ℝ 2 2 := Mat.ofFn fun i j => if i = j then 0 else 1

theorem masks_lose_nothing_exchange :
    let pattern := Pattern.nonzeros exchange
    let order : Vector (Fin 2) 2 := Vector.ofFn id
    let S := Problem.halfLine.analyze .minimumDegree
    let status := (State.start Problem.halfLine .origin).active.status
    let changed := S.modify (S.assemble Problem.halfLine) status
    pattern.Covers exchange ∧ S.Covers Problem.halfLine ∧
      ((Packed.eliminate (exchange.permuteColumns order)).matrix.entry 1 0 ≠ 0 →
        (pattern.reflectorFill order).entry 1 0 = true) ∧
      (S.factorize changed).triangle.entry 1 1 =
        (Packed.eliminate (changed.permuteColumns S.order)).matrix.entry 1 1 := by
  intro pattern order S status changed
  have hM : pattern.Covers exchange := Pattern.covers_nonzeros exchange
  have hS := covers_analyze Problem.halfLine .minimumDegree
  obtain ⟨hfill, hmasks⟩ := masks_lose_nothing hM order hS
  have hlower : (0 : Fin 2) < 1 := by decide
  have htriangle := (hmasks status 1 1).2
  rw [if_neg (lt_irrefl _)] at htriangle
  exact ⟨hM, hS, fun hentry => (hfill 1 0 hentry).1 hlower, htriangle⟩

section Alike

variable {S S' : Analysis n m} {P : Problem ℝ EReal n m} {g : PrimalDual ℝ n m}
variable {s t : State ℝ n m}

namespace State

theorem Alike.isSingular_iff (hS : S.Covers P) (hS' : S'.Covers P) (hst : s.Alike t) :
    (attempt S' P t).IsSingular 0 ↔ (attempt S P s).IsSingular 0 := by
  rw [isSingular_zero_attempt_iff hS', isSingular_zero_attempt_iff hS, hst.active, hS.modify_eq hS']

/-- The system has one solution, and both factorizations find it. -/
theorem Alike.solution_eq (hS : S.Covers P) (hS' : S'.Covers P) (hst : s.Alike t)
    (hregular : ¬ (attempt S P s).IsSingular 0) :
    (attempt S' P t).solution = (attempt S P s).solution := by
  have hunit := isUnit_modify_of_not_isSingular le_rfl hS hregular
  have hz := solves_attempt le_rfl hS hregular
  have hz' := solves_attempt le_rfl hS' ((hst.isSingular_iff hS hS').not.mpr hregular)
  rw [Analysis.Solves, hst.value, hst.active, hS.modify_eq hS'] at hz'
  have hget := Matrix.vecMul_injective_of_isUnit hunit (hz'.trans hz.symm)
  exact vector_ext fun e => congrFun hget e

theorem Alike.step_eq (hS : S.Covers P) (hS' : S'.Covers P) (hst : s.Alike t)
    (hregular : ¬ (attempt S P s).IsSingular 0) :
    (attempt S' P t).limit = (attempt S P s).limit ∧
      (attempt S' P t).advanced = (attempt S P s).advanced := by
  have hsolution := hst.solution_eq hS hS' hregular
  have hdirection : (attempt S' P t).direction = (attempt S P s).direction := by
    change P.direction t.value t.active (attempt S' P t).solution = _
    rw [hst.value, hst.active, hsolution]
    rfl
  have hlimit : (attempt S' P t).limit = (attempt S P s).limit := by
    change stepLimit (candidates P.lower P.upper t.value t.active (attempt S' P t).direction) = _
    rw [hst.value, hst.active, hdirection]
    rfl
  refine ⟨hlimit, ?_⟩
  change P.advance t (attempt S' P t).direction (attempt S' P t).limit = _
  rw [hst.advance_eq, hdirection, hlimit]
  rfl

theorem Alike.iterate (hS : S.Covers P) (hS' : S'.Covers P) (hst : s.Alike t) :
    (QuadraticProgram.iterate 0 S P s).Alike (QuadraticProgram.iterate 0 S' P t) :=
  Attempt.alike_next (f := id) (fun _ _ _ _ => rfl) hst (hst.isSingular_iff hS hS')
    (hst.step_eq hS hS')

theorem Alike.iterate_eq (hS : S.Covers P) (hS' : S'.Covers P) (hst : s.Alike t)
    (hregular : ¬ (attempt S P s).IsSingular 0) :
    QuadraticProgram.iterate 0 S' P t = QuadraticProgram.iterate 0 S P s := by
  obtain ⟨hlimit, hadvanced⟩ := hst.step_eq hS hS' hregular
  exact Attempt.next_eq_of_limit_eq (f := id) (fun _ _ _ _ => rfl) hst hregular
    ((hst.isSingular_iff hS hS').not.mpr hregular) hlimit hadvanced

end State

/-- The setup does not influence the answer: with every pivot that is not zero accepted, the runs on
two analyses that cover the problem pass through the same states, and a singular system ends both of
them at once. -/
theorem alike_of_covers (hS : S.Covers P) (hS' : S'.Covers P) (g : PrimalDual ℝ n m) :
    (∀ k, let s := stateAfter 0 S P g k
      let t := stateAfter 0 S' P g k
      s.Alike t ∧ ((attempt S' P t).IsSingular 0 ↔ (attempt S P s).IsSingular 0) ∧
        (¬ (attempt S P s).IsSingular 0 → iterate 0 S' P t = iterate 0 S P s)) ∧
      ∀ budget, (solveFrom 0 S P g budget).Alike (solveFrom 0 S' P g budget) := by
  have hstates : ∀ k, (stateAfter 0 S P g k).Alike (stateAfter 0 S' P g k) := fun k =>
    related_stateAfter (.refl _) fun _ _ hst => hst.iterate hS hS'
  refine ⟨fun k => ?_, fun budget => ?_⟩
  · have hst := hstates k
    exact ⟨hst, hst.isSingular_iff hS hS', hst.iterate_eq hS hS'⟩
  · exact related_solveFrom (fun _ _ hst => hst.done) fun k _ => hstates k

end Alike

/-- Whatever is marked covers every problem when everything is. -/
theorem covers_full (P : Problem ℝ EReal n m) (rule : ColumnOrder) :
    (analyze (Mat.ofFn fun _ _ => true) (Mat.ofFn fun _ _ => true) rule).Covers P where
  analyzed := ⟨_, _, rule, rfl⟩
  hessian i j _ := by
    change (Pattern.symmetrize (Mat.ofFn fun _ _ => true)).entry i j = true
    simp
  constraints i j _ := Mat.entry_ofFn _ i j

theorem alike_of_covers_halfLine :
    let S := Problem.halfLine.analyze .minimumDegree
    let S' := analyze (Mat.ofFn fun _ _ => true) (Mat.ofFn fun _ _ => true) .natural
    S.Covers Problem.halfLine ∧ S'.Covers Problem.halfLine ∧
      (solveFrom 0 S Problem.halfLine .origin 1).outcome = .success ∧
      solveFrom 0 S' Problem.halfLine .origin 1 = solveFrom 0 S Problem.halfLine .origin 1 ∧
      (stateAfter 0 S Problem.halfLine .origin 3).Alike
        (stateAfter 0 S' Problem.halfLine .origin 3) := by
  intro S S'
  have hS := covers_analyze Problem.halfLine .minimumDegree
  have hS' : S'.Covers Problem.halfLine := covers_full Problem.halfLine .natural
  have hsuccess := outcome_halfLine .minimumDegree
  obtain ⟨hstates, hanswers⟩ := alike_of_covers hS hS' .origin
  have hanswer : solveFrom 0 S' Problem.halfLine .origin 1 =
      solveFrom 0 S Problem.halfLine .origin 1 := by
    refine (hanswers 1).eq fun hsingular => ?_
    exact Outcome.noConfusion (hsuccess.symm.trans hsingular)
  exact ⟨hS, hS', hsuccess, hanswer, (hstates 3).1⟩

end QuadraticProgram
