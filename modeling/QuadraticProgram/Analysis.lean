import QuadraticProgram.Pattern.Fill
import QuadraticProgram.Pattern.Ordering

/-!
# Analysis of a problem shape

What the solver works out once for all problems of one shape and sparsity: the patterns of the
optimality system, a column ordering, and the fill of the reflector elimination in that order. What
is worth telling about it is a log entry, as are the warnings of a run.
-/
namespace QuadraticProgram

inductive ColumnOrder where
  | minimumDegree
  | natural
  deriving DecidableEq, Repr

namespace ColumnOrder

def ofName? : String → Option ColumnOrder
  | "min_degree" => some minimumDegree
  | "natural" => some natural
  | _ => none

def apply (rule : ColumnOrder) {m n : Nat} (P : Pattern m n) : Vector (Fin n) n :=
  match rule with
  | minimumDegree => P.minimumDegree
  | natural => Vector.ofFn id

end ColumnOrder

structure Analysis (n m : Nat) where
  hessian : Pattern n n
  constraints : Pattern m n
  kkt : Pattern (n + m) (n + m)
  padded : Pattern (n + m) (n + m)
  order : Vector (Fin (n + m)) (n + m)
  /-- Bounds the reflector vectors below their leading entries. -/
  reflectors : Pattern (n + m) (n + m)
  triangle : Pattern (n + m) (n + m)

variable {n m : Nat}

def analyze (h : Pattern n n) (a : Pattern m n) (rule : ColumnOrder) : Analysis n m :=
  let kkt := Pattern.kkt h a
  let padded := kkt.addDiagonal
  let order := rule.apply padded
  let filled := padded.fill order
  { hessian := h.symmetrize
    constraints := a
    kkt := kkt
    padded := padded
    order := order
    reflectors := filled.strictLower
    triangle := filled.upper }

inductive Severity where
  | info
  | warning
  deriving DecidableEq, Repr

structure LogEntry where
  severity : Severity
  text : String
  deriving DecidableEq, Repr

def LogEntry.line (entry : LogEntry) : String :=
  match entry.severity with
  | .info => "INFO: " ++ entry.text
  | .warning => "WARNING: " ++ entry.text

def Analysis.logEntry (S : Analysis n m) : LogEntry :=
  { severity := .info
    text :=
      s!"KKT structure: {n} variables, {m} constraints, nnz(kkt)={S.kkt.count}, " ++
        s!"nnz(V)={S.reflectors.count}, nnz(R)={S.triangle.count}" }

end QuadraticProgram
