import QuadraticProgram.Proofs.Comparison
import QuadraticProgram.Residuals

/-! # Residuals reveal values that are not finite

A maximum that prefers its first value can lose a value that is not a number, a missing bound has no
distance, and a product with a zero is a number when the other factor is finite. The check of a
point survives all of that. Every entry of the point, of the multipliers and of the data enters the
gradient of the Lagrangian, through sums and products that are not finite as soon as one of their
terms is not, and every bound enters the largest violation. Both residuals are maxima that lose
nothing. Only this is asked of the arithmetic, so it may round and it may overflow.
-/
namespace QuadraticProgram

/-- Sums and products are finite only if their terms are, and so is what lies between a finite value
and its negative. -/
class Scalar.Contagious (α : Type) [Scalar α] : Prop extends Std.LawfulOrderSup α where
  isFinite_of_add {a b : α} : isFinite (a + b) = true → isFinite a = true ∧ isFinite b = true
  isFinite_of_mul {a b : α} : isFinite (a * b) = true → isFinite a = true ∧ isFinite b = true
  isFinite_of_le {a c : α} : a ≤ c → -a ≤ c → isFinite c = true → isFinite a = true

abbrev Bound.BelowPosInf {α β : Type} [Bound α β] (b : β) : Prop := b ≤ b ∧ ¬ posInf ≤ b

abbrev Bound.AboveNegInf {α β : Type} [Bound α β] (b : β) : Prop := b ≤ b ∧ ¬ b ≤ negInf

/-- A difference is at most a finite value only between a number below the largest one and a number
above the smallest one. -/
class Bound.Contagious (α : outParam Type) (β : Type) [Scalar α] [Bound α β] : Prop extends
    Std.LawfulOrderSup β where
  numbers_of_sub_le {a b : β} {c : α} : a - b ≤ ofScalar c → Scalar.isFinite c = true →
    BelowPosInf a ∧ AboveNegInf b

namespace Scalar

variable {α : Type} [Scalar α] [Contagious α]

theorem isFinite_of_abs_le {a c : α} (h : abs a ≤ c) (hc : isFinite c = true) :
    isFinite a = true :=
  have hboth := Std.max_le_iff.mp h
  Contagious.isFinite_of_le hboth.1 hboth.2 hc

theorem isFinite_of_sum {n : ℕ} {f : Fin n → α} (h : isFinite (sum f) = true) (i : Fin n) :
    isFinite (f i) = true := by
  induction n with
  | zero => exact i.elim0
  | succ n ih =>
    rw [sum_succ] at h
    obtain ⟨hinit, hlast⟩ := Contagious.isFinite_of_add h
    exact Fin.lastCases hlast (fun i => ih hinit i) i

end Scalar

namespace Problem

open Scalar (isFinite)
open Scalar.Contagious

variable {α β : Type} [Scalar α] [Bound α β] {n m : ℕ}
variable {P : Problem α β n m} {p : PrimalDual α n m} {tolerance : α}

/-- The data of the problem, the point and the multipliers are finite, and a bound is a number that
is infinite only where the bound is missing. -/
structure IsFiniteAt (P : Problem α β n m) (p : PrimalDual α n m) : Prop where
  point i : isFinite (p.point.get i) = true
  multiplier e : isFinite (p.multiplier.get e) = true
  hessian i j : isFinite (P.hessian.entry i j) = true
  linear i : isFinite (P.linear.get i) = true
  constraints j i : isFinite (P.constraints.entry j i) = true
  lower e : Bound.BelowPosInf (P.lower.get e)
  upper e : Bound.AboveNegInf (P.upper.get e)

/-- Every term of the gradient of the Lagrangian shows in the first residual. -/
theorem isFinite_of_stationarity_le [Scalar.Contagious α]
    (h : (P.residuals p).stationarity ≤ tolerance) (htolerance : isFinite tolerance = true)
    (i : Fin n) :
    isFinite ((P.hessian.mulVec p.point).get i) = true ∧ isFinite (P.linear.get i) = true ∧
      isFinite ((P.constraints.vecMul (onRows p.multiplier)).get i) = true ∧
      isFinite (p.multiplier.get (i.castAdd m)) = true := by
  change largest (fun i : Fin n => Scalar.abs ((P.gradient p.point (onRows p.multiplier)).get i +
    p.multiplier.get (i.castAdd m))) ≤ tolerance at h
  have hrow := Scalar.isFinite_of_abs_le ((largest_le_iff.mp h).2 i) htolerance
  rw [get_gradient] at hrow
  obtain ⟨hgradient, hmultiplier⟩ := isFinite_of_add hrow
  obtain ⟨hinit, hrows⟩ := isFinite_of_add hgradient
  obtain ⟨hhessian, hlinear⟩ := isFinite_of_add hinit
  exact ⟨hhessian, hlinear, hrows, hmultiplier⟩

theorem violations_le_iff [Std.LawfulOrderSup β] {c : β} : (P.residuals p).primal ≤ c ↔
    Bound.ofScalar 0 ≤ c ∧ ∀ e, P.lower.get e - Bound.ofScalar ((P.valuesAt p.point).get e) ≤ c ∧
      Bound.ofScalar ((P.valuesAt p.point).get e) - P.upper.get e ≤ c :=
  foldl_max_le_iff (f := fun e => P.lower.get e - Bound.ofScalar ((P.valuesAt p.point).get e))
    (g := fun e => Bound.ofScalar ((P.valuesAt p.point).get e) - P.upper.get e)

/-- Both sides of every entry show in the second residual. -/
theorem numbers_of_primal_le [Bound.Contagious α β]
    (h : (P.residuals p).primal ≤ Bound.ofScalar tolerance) (htolerance : isFinite tolerance = true)
    (e : Fin (n + m)) : Bound.BelowPosInf (P.lower.get e) ∧ Bound.AboveNegInf (P.upper.get e) := by
  obtain ⟨hlower, hupper⟩ := (violations_le_iff.mp h).2 e
  exact ⟨(Bound.Contagious.numbers_of_sub_le hlower htolerance).1,
    (Bound.Contagious.numbers_of_sub_le hupper htolerance).2⟩

/-- Where a point is accepted with a finite tolerance, everything is finite. Without variables there
is no gradient to show the multipliers of the rows. -/
theorem IsOptimal.isFiniteAt [Scalar.Contagious α] [Bound.Contagious α β] (hn : 0 < n)
    (htolerance : isFinite tolerance = true) (h : P.IsOptimal p tolerance) : P.IsFiniteAt p := by
  obtain ⟨hstationarity, hprimal, -, -⟩ := h
  have hrow := isFinite_of_stationarity_le hstationarity htolerance
  have hbounds := numbers_of_primal_le hprimal htolerance
  have hhessian : ∀ i j, isFinite (P.hessian.entry i j) = true ∧
      isFinite (p.point.get j) = true := fun i j => by
    have hsum := (hrow i).1
    rw [Mat.get_mulVec] at hsum
    exact isFinite_of_mul (Scalar.isFinite_of_sum hsum j)
  have hconstraints : ∀ j i, isFinite (P.constraints.entry j i) = true ∧
      isFinite (p.multiplier.get (j.natAdd n)) = true := fun j i => by
    have hsum := (hrow i).2.2.1
    rw [Mat.get_vecMul] at hsum
    have hterm := isFinite_of_mul (Scalar.isFinite_of_sum hsum j)
    rwa [get_onRows] at hterm
  -- an entry of the point meets the Hessian in every row, so one row suffices
  exact {
    point := fun j => (hhessian ⟨0, hn⟩ j).2
    multiplier := Fin.addCases (fun i => (hrow i).2.2.2) fun j => (hconstraints j ⟨0, hn⟩).2
    hessian := fun i j => (hhessian i j).1
    linear := fun i => (hrow i).2.1
    constraints := fun j i => (hconstraints j i).1
    lower := fun e => (hbounds e).1
    upper := fun e => (hbounds e).2 }

end Problem

end QuadraticProgram
