import QuadraticProgram.Pattern.Basic

/-!
# Fill of a reflector elimination

Step `k` reflects the rows that hold an entry of column `k` on or below the diagonal, row `k` among
them whether it holds one or not. Every later column with an entry in one of these rows then has an
entry in all of them. After the last step the part strictly below the diagonal bounds the reflector
vectors and the rest bounds the triangular factor.
-/
namespace QuadraticProgram.Pattern

variable {n : Nat}

def reflectedRows (W : Pattern n n) (k : Fin n) : Vector Bool n :=
  Vector.ofFn fun r => decide (r = k ∨ k < r ∧ W.entry r k = true)

/-- The columns that step `k` fills: its own, and the later ones with an entry in given rows. -/
def filledColumns (W : Pattern n n) (k : Fin n) (rows : Vector Bool n) : Vector Bool n :=
  Vector.ofFn fun c =>
    decide (c = k ∨ k < c ∧ ∃ r, rows.get r = true ∧ W.entry r c = true)

def fillStep (k : Fin n) (W : Pattern n n) : Pattern n n :=
  let rows := W.reflectedRows k
  let columns := W.filledColumns k rows
  Mat.ofFn fun r c => W.entry r c || rows.get r && columns.get c

theorem entry_fillStep (k : Fin n) (W : Pattern n n) (r c : Fin n) :
    (fillStep k W).entry r c =
      (W.entry r c ||
        (W.reflectedRows k).get r && (W.filledColumns k (W.reflectedRows k)).get c) := by
  simp [fillStep]

def fillTo (P : Pattern n n) (order : Vector (Fin n) n) (k : Nat) (h : k ≤ n) : Pattern n n :=
  sweep fillStep (P.permuteColumns order) k h

def fill (P : Pattern n n) (order : Vector (Fin n) n) : Pattern n n :=
  fillTo P order n (Nat.le_refl n)

def reflectorFill (P : Pattern n n) (order : Vector (Fin n) n) : Pattern n n :=
  (P.fill order).strictLower

def triangleFill (P : Pattern n n) (order : Vector (Fin n) n) : Pattern n n :=
  (P.fill order).upper

end QuadraticProgram.Pattern
