/-!
# Loops over indices

The loops of the library run over the indices below a bound, in order. `sweep` threads a state
through the first `k` of them, so a statement about a loop is an induction on `k`. `build` fills a
vector whose entries depend on the ones before them, and `get_build` is the recurrence it solves.
`extent` is how far a property reaches. `firstLeast?` finds where a partial function is smallest.
-/
namespace QuadraticProgram

variable {n : Nat} {σ τ : Type}

theorem get_eq_getElem (v : Vector τ n) (i : Fin n) : v.get i = v[i.val] := rfl

@[simp] theorem get_ofFn (f : Fin n → τ) (i : Fin n) : (Vector.ofFn f).get i = f i := by
  rw [get_eq_getElem, Vector.getElem_ofFn]

@[simp] theorem get_map (f : σ → τ) (v : Vector σ n) (i : Fin n) :
    (v.map f).get i = f (v.get i) := by
  rw [get_eq_getElem, get_eq_getElem, Vector.getElem_map]

theorem get_set (v : Vector τ n) (k i : Fin n) (a : τ) :
    (v.set k a k.isLt).get i = if i = k then a else v.get i := by
  rw [get_eq_getElem, get_eq_getElem, Vector.getElem_set]
  by_cases h : i = k
  · simp [h]
  · rw [if_neg h, if_neg fun hv => h (Fin.ext hv.symm)]

theorem vector_ext {u v : Vector τ n} (h : ∀ i, u.get i = v.get i) : u = v := by
  apply Vector.ext
  intro i hi
  exact h ⟨i, hi⟩

def sweep (step : Fin n → σ → σ) (start : σ) : (k : Nat) → k ≤ n → σ
  | 0, _ => start
  | k + 1, h => step ⟨k, h⟩ (sweep step start k (Nat.le_of_succ_le h))

/-- A change of state that every step commutes with commutes with the loop. -/
theorem sweep_map {step : Fin n → σ → σ} {step' : Fin n → τ → τ} (f : σ → τ)
    (h : ∀ i s, step' i (f s) = f (step i s)) (start : σ) {k : Nat} (hk : k ≤ n) :
    sweep step' (f start) k hk = f (sweep step start k hk) := by
  induction k with
  | zero => rfl
  | succ k ih => rw [sweep, ih, h, sweep]

def extentTo (p : Fin n → Prop) [DecidablePred p] : (k : Nat) → k ≤ n → Nat :=
  sweep (fun i e => if p i then i.val + 1 else e) 0

def extent (p : Fin n → Prop) [DecidablePred p] : Nat := extentTo p n (Nat.le_refl n)

theorem not_of_extentTo_le {p : Fin n → Prop} [DecidablePred p] {k : Nat} (hk : k ≤ n) {i : Fin n}
    (hi : i.val < k) (h : extentTo p k hk ≤ i.val) : ¬ p i := by
  induction k with
  | zero => exact absurd hi (Nat.not_lt_zero _)
  | succ k ih =>
    rw [extentTo, sweep] at h
    by_cases hp : p ⟨k, hk⟩
    · rw [if_pos hp] at h
      exact absurd (Nat.lt_of_lt_of_le hi h) (Nat.lt_irrefl _)
    · rw [if_neg hp] at h
      rcases Nat.lt_succ_iff_lt_or_eq.mp hi with hlt | heq
      · exact ih (Nat.le_of_succ_le hk) hlt h
      · rwa [show i = ⟨k, hk⟩ from Fin.ext heq]

/-- From the extent on no index has the property. -/
theorem not_of_extent_le {p : Fin n → Prop} [DecidablePred p] {i : Fin n}
    (h : extent p ≤ i.val) : ¬ p i :=
  not_of_extentTo_le (Nat.le_refl n) i.isLt h

def buildTo (next : (k : Fin n) → Vector τ k → τ) : (k : Nat) → k ≤ n → Vector τ k
  | 0, _ => #v[]
  | k + 1, h =>
    let before := buildTo next k (Nat.le_of_succ_le h)
    before.push (next ⟨k, h⟩ before)

/-- The vector each of whose entries is found from the ones before it. -/
def build (next : (k : Fin n) → Vector τ k → τ) : Vector τ n := buildTo next n (Nat.le_refl n)

theorem get_buildTo (next : (k : Fin n) → Vector τ k → τ) {k : Nat} (h : k ≤ n) (i : Fin k) :
    (buildTo next k h).get i =
      next ⟨i, by omega⟩ (buildTo next i (by omega)) := by
  induction k with
  | zero => exact i.elim0
  | succ k ih =>
    obtain ⟨i, hi⟩ := i
    rcases Nat.lt_succ_iff_lt_or_eq.mp hi with hlt | rfl
    · rw [get_eq_getElem, buildTo, Vector.getElem_push_lt hlt]
      exact ih (Nat.le_of_succ_le h) ⟨i, hlt⟩
    · rw [get_eq_getElem, buildTo, Vector.getElem_push_eq]

/-- The recurrence: an entry is found from the vector of the entries before it. -/
theorem get_build (next : (k : Fin n) → Vector τ k → τ) (k : Fin n) :
    (build next).get k = next k (buildTo next k (Nat.le_of_lt k.isLt)) :=
  get_buildTo next (Nat.le_refl n) k

/-- The entries before an entry are entries of the whole vector. -/
theorem get_buildTo_eq_get_build (next : (k : Fin n) → Vector τ k → τ) {k : Nat} (h : k ≤ n)
    (i : Fin k) : (buildTo next k h).get i = (build next).get ⟨i, by omega⟩ := by
  rw [get_build, get_buildTo]

theorem buildTo_map {next : (k : Fin n) → Vector σ k → σ} {next' : (k : Fin n) → Vector τ k → τ}
    (f : σ → τ) (h : ∀ k before, next' k (before.map f) = f (next k before)) {k : Nat}
    (hk : k ≤ n) : buildTo next' k hk = (buildTo next k hk).map f := by
  induction k with
  | zero => exact vector_ext fun i => i.elim0
  | succ k ih => simp only [buildTo, ih, h, Vector.map_push]

theorem build_map {next : (k : Fin n) → Vector σ k → σ} {next' : (k : Fin n) → Vector τ k → τ}
    (f : σ → τ) (h : ∀ k before, next' k (before.map f) = f (next k before)) :
    build next' = (build next).map f :=
  buildTo_map f h (Nat.le_refl n)

def better (before : τ → τ → Bool) (f : Fin n → Option τ) (i : Fin n)
    (best : Option (Fin n × τ)) : Option (Fin n × τ) :=
  match f i, best with
  | none, best => best
  | some a, none => some (i, a)
  | some a, some (j, b) => if before a b then some (i, a) else some (j, b)

def firstLeast? (before : τ → τ → Bool) (f : Fin n → Option τ) : Option (Fin n × τ) :=
  sweep (better before f) none n (Nat.le_refl n)

/-- What the search among the first `k` indices has to find: nothing when the function has no value
there, and otherwise a value that none comes before, with all values at smaller indices after it. -/
def IsFirstLeast (before : τ → τ → Bool) (f : Fin n → Option τ) (k : Nat) :
    Option (Fin n × τ) → Prop
  | none => ∀ j : Fin n, j.val < k → f j = none
  | some (i, a) => i.val < k ∧ f i = some a ∧
    (∀ j : Fin n, j.val < k → ∀ b, f j = some b → before b a = false) ∧
    ∀ j : Fin n, j < i → ∀ b, f j = some b → before a b = true

section FirstLeast

variable {before : τ → τ → Bool} {f : Fin n → Option τ}

theorem lt_or_eq_of_lt_succ {k : Nat} (hk : k < n) {j : Fin n} (hj : j.val < k + 1) :
    j.val < k ∨ j = ⟨k, hk⟩ :=
  (Nat.lt_succ_iff_lt_or_eq.mp hj).imp_right Fin.ext

theorem isFirstLeast_better (asymm : ∀ a b, before a b = true → before b a = false)
    (between : ∀ a b c, before a c = true → before a b = true ∨ before b c = true)
    {k : Nat} (hk : k < n) {best : Option (Fin n × τ)} (h : IsFirstLeast before f k best) :
    IsFirstLeast before f (k + 1) (better before f ⟨k, hk⟩ best) := by
  have irrefl : ∀ a, before a a = false := fun a => by
    cases ha : before a a with
    | false => rfl
    | true => exact absurd (asymm a a ha) (by simp [ha])
  cases hf : f ⟨k, hk⟩ with
  | none =>
    simp only [better, hf]
    cases best with
    | none =>
      intro j hj
      rcases lt_or_eq_of_lt_succ hk hj with hj | rfl
      · exact h j hj
      · exact hf
    | some p =>
      obtain ⟨hi, hv, hmin, hfirst⟩ := h
      refine ⟨Nat.lt_succ_of_lt hi, hv, fun j hj b hb => ?_, hfirst⟩
      rcases lt_or_eq_of_lt_succ hk hj with hj | rfl
      · exact hmin j hj b hb
      · simp [hf] at hb
  | some a =>
    cases best with
    | none =>
      simp only [better, hf]
      refine ⟨Nat.lt_succ_self k, hf, fun j hj b hb => ?_, fun j hj b hb => ?_⟩
      · rcases lt_or_eq_of_lt_succ hk hj with hj | rfl
        · simp [h j hj] at hb
        · obtain rfl : a = b := Option.some.inj (hf.symm.trans hb)
          exact irrefl a
      · simp [h j hj] at hb
    | some p =>
      obtain ⟨i, c⟩ := p
      obtain ⟨hi, hv, hmin, hfirst⟩ := h
      simp only [better, hf]
      by_cases hac : before a c = true
      · simp only [hac, if_true]
        refine ⟨Nat.lt_succ_self k, hf, fun j hj b hb => ?_, fun j hj b hb => ?_⟩
        · rcases lt_or_eq_of_lt_succ hk hj with hj | rfl
          · cases hba : before b a with
            | false => rfl
            | true =>
              rcases between b c a hba with hbc | hca
              · exact absurd (hmin j hj b hb) (by simp [hbc])
              · exact absurd (asymm a c hac) (by simp [hca])
          · obtain rfl : a = b := Option.some.inj (hf.symm.trans hb)
            exact irrefl a
        · rcases between a b c hac with hab | hbc
          · exact hab
          · exact absurd (hmin j hj b hb) (by simp [hbc])
      · simp only [hac, Bool.false_eq_true, if_false]
        refine ⟨Nat.lt_succ_of_lt hi, hv, fun j hj b hb => ?_, hfirst⟩
        rcases lt_or_eq_of_lt_succ hk hj with hj | rfl
        · exact hmin j hj b hb
        · obtain rfl : a = b := Option.some.inj (hf.symm.trans hb)
          exact Bool.eq_false_iff.mpr hac

/-- The search finds the first of the least values, as long as the comparison is a strict weak
order. -/
theorem isFirstLeast_firstLeast? (asymm : ∀ a b, before a b = true → before b a = false)
    (between : ∀ a b c, before a c = true → before a b = true ∨ before b c = true) :
    IsFirstLeast before f n (firstLeast? before f) := by
  have key : ∀ (k : Nat) (hk : k ≤ n),
      IsFirstLeast before f k (sweep (better before f) none k hk) := by
    intro k
    induction k with
    | zero => exact fun _ j hj => absurd hj (Nat.not_lt_zero _)
    | succ k ih => exact fun hk => isFirstLeast_better asymm between hk (ih _)
  exact key n (Nat.le_refl n)

theorem better_map {before' : σ → σ → Bool} (g : τ → σ)
    (hbefore : ∀ a b, before' (g a) (g b) = before a b) (i : Fin n)
    (best : Option (Fin n × τ)) :
    better before' (fun i => (f i).map g) i (best.map (Prod.map id g)) =
      (better before f i best).map (Prod.map id g) := by
  cases hf : f i with
  | none => simp [better, hf]
  | some a =>
    cases best with
    | none => simp [better, hf]
    | some p =>
      simp only [better, hf, Option.map_some, Prod.map, hbefore]
      split <;> rfl

/-- Values that compare alike are found at the same index. -/
theorem firstLeast?_map {before' : σ → σ → Bool} (g : τ → σ)
    (hbefore : ∀ a b, before' (g a) (g b) = before a b) :
    firstLeast? before' (fun i => (f i).map g) = (firstLeast? before f).map (Prod.map id g) :=
  sweep_map (Option.map (Prod.map id g)) (better_map g hbefore) none (Nat.le_refl n)

end FirstLeast

end QuadraticProgram
