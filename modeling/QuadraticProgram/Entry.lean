import QuadraticProgram.Dense

/-!
# Entries

A bounded quantity is an entry. With `n` variables and `m` constraint rows the entries are numbered
by `Fin (n + m)`, the variables first. The functions here join data on variables and rows into data
on entries and split it again.
-/
namespace QuadraticProgram

variable {τ : Type} {n m : Nat}

def join (u : Vector τ n) (v : Vector τ m) : Vector τ (n + m) :=
  Vector.ofFn (Fin.addCases (fun i => u.get i) fun j => v.get j)

@[simp] theorem get_join_castAdd (u : Vector τ n) (v : Vector τ m) (i : Fin n) :
    (join u v).get (i.castAdd m) = u.get i := by
  simp [join]

@[simp] theorem get_join_natAdd (u : Vector τ n) (v : Vector τ m) (j : Fin m) :
    (join u v).get (j.natAdd n) = v.get j := by
  simp [join]

def onVariables (w : Vector τ (n + m)) : Vector τ n := Vector.ofFn fun i => w.get (i.castAdd m)

def onRows (w : Vector τ (n + m)) : Vector τ m := Vector.ofFn fun j => w.get (j.natAdd n)

@[simp] theorem get_onVariables (w : Vector τ (n + m)) (i : Fin n) :
    (onVariables w).get i = w.get (i.castAdd m) := by
  simp [onVariables]

@[simp] theorem get_onRows (w : Vector τ (n + m)) (j : Fin m) :
    (onRows w).get j = w.get (j.natAdd n) := by
  simp [onRows]

@[simp] theorem onVariables_join (u : Vector τ n) (v : Vector τ m) : onVariables (join u v) = u :=
  vector_ext fun i => by simp

@[simp] theorem onRows_join (u : Vector τ n) (v : Vector τ m) : onRows (join u v) = v :=
  vector_ext fun j => by simp

theorem join_onVariables_onRows (w : Vector τ (n + m)) : join (onVariables w) (onRows w) = w :=
  vector_ext fun e => by
    refine Fin.addCases (fun i => ?_) (fun j => ?_) e <;> simp

end QuadraticProgram
