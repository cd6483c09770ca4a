import Mathlib.Tactic.Common
import QuadraticProgram.Trace

/-! # What a report tells

The lines of a report can be read back. Entries have different names, decisions have different
sentences, and the marks of statuses that a run can have determine the statuses. So the decisions of
a run can be replayed on the active set that its first report shows, from the text alone.
-/
namespace QuadraticProgram

variable {n m : ℕ}

section Names

theorem repr_injective {a b : ℕ} (h : a.repr = b.repr) : a = b := by
  have hdigits := congrArg (fun s => Nat.ofDigitChars 10 s.toList 0) h
  simpa only [Nat.toList_repr, Nat.ofDigitChars_ten_toDigits] using hdigits

theorem entryName_castAdd (i : Fin n) :
    entryName (i.castAdd m) = "x[" ++ i.val.repr ++ "]" := by
  rw [entryName, Fin.addCases_left]
  rfl

theorem entryName_natAdd (j : Fin m) :
    entryName (j.natAdd n) = "g[" ++ j.val.repr ++ "]" := by
  rw [entryName, Fin.addCases_right]
  rfl

theorem head?_toList_append {a : String} {c : Char} (h : a.toList.head? = some c) (b : String) :
    (a ++ b).toList.head? = some c := by
  rw [String.toList_append, List.head?_append, h, Option.some_or]

theorem entryName_castAdd_ne_natAdd (i : Fin n) (j : Fin m) :
    entryName (i.castAdd m) ≠ entryName (j.natAdd n) := by
  rw [entryName_castAdd, entryName_natAdd, ne_eq, String.append_left_inj]
  intro h
  have hx : ("x[" ++ i.val.repr).toList.head? = some 'x' := head?_toList_append rfl _
  have hg : ("g[" ++ j.val.repr).toList.head? = some 'g' := head?_toList_append rfl _
  rw [h, hg] at hx
  exact absurd hx (by decide)

theorem entryName_injective : Function.Injective (entryName : Fin (n + m) → String) := by
  intro e e'
  refine Fin.addCases (fun i => ?_) (fun j => ?_) e <;>
    refine Fin.addCases (fun i' => ?_) (fun j' => ?_) e' <;> intro h
  · rw [entryName_castAdd, entryName_castAdd, String.append_left_inj, String.append_right_inj] at h
    rw [Fin.ext (repr_injective h)]
  · exact absurd h (entryName_castAdd_ne_natAdd i j')
  · exact absurd h.symm (entryName_castAdd_ne_natAdd i' j)
  · rw [entryName_natAdd, entryName_natAdd, String.append_left_inj, String.append_right_inj] at h
    rw [Fin.ext (repr_injective h)]

end Names

namespace Decision

def initial : Decision n m → Char
  | fullStep => 'F'
  | removed _ => 'B'
  | upperAdded _ => 'U'
  | lowerAdded _ => 'L'

theorem head?_text (d : Decision n m) : d.text.toList.head? = some d.initial := by
  cases d with
  | fullStep => exact (rfl : "Full step".toList.head? = some 'F')
  | removed e => exact head?_toList_append rfl _
  | upperAdded e => exact head?_toList_append rfl _
  | lowerAdded e => exact head?_toList_append rfl _

/-- Different decisions have different sentences. -/
theorem text_injective : Function.Injective (text : Decision n m → String) := by
  intro d d' h
  have hinitial : d.initial = d'.initial := by
    have hhead := congrArg (fun s => s.toList.head?) h
    simpa only [head?_text, Option.some.injEq] using hhead
  cases d with
  | fullStep =>
    cases d' with
    | fullStep => rfl
    | _ => simp [initial] at hinitial
  | removed e =>
    cases d' with
    | removed e' =>
      rw [entryName_injective ((String.append_right_inj "Bound removed for ").mp h)]
    | _ => simp [initial] at hinitial
  | upperAdded e =>
    cases d' with
    | upperAdded e' =>
      rw [entryName_injective ((String.append_right_inj "Upper bound added for ").mp h)]
    | _ => simp [initial] at hinitial
  | lowerAdded e =>
    cases d' with
    | lowerAdded e' =>
      rw [entryName_injective ((String.append_right_inj "Lower bound added for ").mp h)]
    | _ => simp [initial] at hinitial

def change? : Decision n m → Option (Fin (n + m) × Status)
  | fullStep => none
  | removed e => some (e, .inactive)
  | upperAdded e => some (e, .upper)
  | lowerAdded e => some (e, .lower)

theorem change?_injective : Function.Injective (change? : Decision n m → _) := by
  intro d d' h
  cases d <;> cases d' <;> cases h <;> rfl

/-- The decision tells what happened: that no entry changed between held and free, or which one did
and how. -/
def Tells (before after : Vector Status (n + m)) (d : Decision n m) : Prop :=
  match d.change? with
  | none => ∀ e, (after.get e).IsActive ↔ (before.get e).IsActive
  | some (e, s) => ((after.get e).IsActive ↔ ¬ (before.get e).IsActive) ∧ after.get e = s

section Tells

variable {before after : Vector Status (n + m)} {e : Fin (n + m)}

theorem tells_removed_iff : (removed e).Tells before after ↔
    (before.get e).IsActive ∧ after.get e = .inactive := by
  refine ⟨fun ⟨hflip, hafter⟩ => ⟨fun hbefore => ?_, hafter⟩, fun ⟨hbefore, hafter⟩ => ?_⟩
  · exact hflip.mpr (not_not.mpr hbefore) hafter
  · exact ⟨iff_of_false (not_not.mpr hafter) (not_not.mpr hbefore), hafter⟩

theorem tells_added_iff {s : Status} (hs : s.IsActive) :
    ((after.get e).IsActive ↔ ¬ (before.get e).IsActive) ∧ after.get e = s ↔
      before.get e = .inactive ∧ after.get e = s := by
  refine and_congr_left fun hafter => ?_
  rw [hafter, iff_true_left hs, not_not]

theorem tells_upperAdded_iff : (upperAdded e).Tells before after ↔
    before.get e = .inactive ∧ after.get e = .upper :=
  tells_added_iff Status.noConfusion

theorem tells_lowerAdded_iff : (lowerAdded e).Tells before after ↔
    before.get e = .inactive ∧ after.get e = .lower :=
  tells_added_iff Status.noConfusion

end Tells

def replay (status : Vector Status (n + m)) (d : Decision n m) : Vector Status (n + m) :=
  match d.change? with
  | some (e, s) => status.set e s
  | none => status

theorem get_replay (status : Vector Status (n + m)) (d : Decision n m) (e : Fin (n + m)) :
    (d.replay status).get e =
      match d.change? with
      | some (e', s) => if e = e' then s else status.get e
      | none => status.get e := by
  rw [replay]
  cases d.change? with
  | none => rfl
  | some change => exact get_set status change.1 e change.2

end Decision

namespace Status

section Marks

variable {a b : Status} {x y u v : String}

theorem eq_of_mark?_append (ha : a.mark? = some x) (hb : b.mark? = some y) (h : x ++ u = y ++ v) :
    a = b ∧ u = v := by
  rw [← String.toList_inj, String.toList_append, String.toList_append] at h
  cases a <;> cases b <;> cases ha <;> cases hb <;> simp_all [String.toList_inj]

theorem mark?_append_ne_empty (ha : a.mark? = some x) : x ++ u ≠ "" := by
  rw [← String.toList_inj.ne, String.toList_append]
  cases a <;> cases ha <;> simp

end Marks

theorem marks?_singleton (s : Status) : marks? [s] = s.mark?.map fun x => x ++ "" := by
  cases s <;> rfl

theorem marks?_cons_cons (a b : Status) (l : List Status) :
    marks? (a :: b :: l) =
      a.mark?.bind fun x => (marks? (b :: l)).map fun y => x ++ (", " ++ y) := by
  simp only [marks?, List.mapM_cons]
  cases a.mark? with
  | none => rfl
  | some x =>
    cases b.mark? with
    | none => rfl
    | some y =>
      cases l.mapM mark? with
      | none => rfl
      | some ys => simp [String.intercalate_cons_cons, String.append_assoc]

theorem exists_marks?_eq {l : List Status} (hl : ∀ s ∈ l, s.mark?.isSome) :
    ∃ x, marks? l = some x := by
  suffices hmarks : ∃ xs, l.mapM mark? = some xs by
    obtain ⟨xs, hxs⟩ := hmarks
    exact ⟨", ".intercalate xs, by rw [marks?, hxs, Option.map_some]⟩
  induction l with
  | nil => exact ⟨[], rfl⟩
  | cons s l ih =>
    obtain ⟨x, hx⟩ := Option.isSome_iff_exists.mp (hl s List.mem_cons_self)
    obtain ⟨xs, hxs⟩ := ih fun t ht => hl t (List.mem_cons_of_mem s ht)
    exact ⟨x :: xs, by rw [List.mapM_cons, hx, hxs]; rfl⟩

/-- Marks determine the statuses. A status without a mark would leave the whole line empty. -/
theorem eq_of_marks? {l l' : List Status} (hlength : l'.length = l.length)
    (hl : ∀ s ∈ l, s.mark?.isSome) (h : (marks? l').getD "" = (marks? l).getD "") : l' = l := by
  induction l generalizing l' with
  | nil => exact List.length_eq_zero_iff.mp hlength
  | cons a l ih =>
    obtain ⟨a', l', rfl⟩ := List.exists_cons_of_length_eq_add_one hlength
    obtain ⟨x, hx⟩ := Option.isSome_iff_exists.mp (hl a List.mem_cons_self)
    have hrest : ∀ s ∈ l, s.mark?.isSome := fun s hs => hl s (List.mem_cons_of_mem a hs)
    have hlength' : l'.length = l.length := Nat.succ.inj hlength
    cases l with
    | nil =>
      obtain rfl := List.length_eq_zero_iff.mp hlength'
      rw [marks?_singleton, marks?_singleton, hx] at h
      cases hx' : a'.mark? with
      | none =>
        rw [hx'] at h
        exact absurd h.symm (mark?_append_ne_empty hx)
      | some x' =>
        rw [hx'] at h
        rw [(eq_of_mark?_append hx' hx h).1]
    | cons b l =>
      obtain ⟨b', l', rfl⟩ := List.exists_cons_of_length_eq_add_one hlength'
      obtain ⟨y, hy⟩ := exists_marks?_eq hrest
      rw [marks?_cons_cons, marks?_cons_cons, hx, hy] at h
      cases hx' : a'.mark? with
      | none =>
        rw [hx'] at h
        exact absurd h.symm (mark?_append_ne_empty hx)
      | some x' =>
        cases hy' : marks? (b' :: l') with
        | none =>
          rw [hx', hy'] at h
          exact absurd h.symm (mark?_append_ne_empty hx)
        | some y' =>
          rw [hx', hy'] at h
          obtain ⟨rfl, hafter⟩ := eq_of_mark?_append hx' hx h
          have hmarks : (marks? (b' :: l')).getD "" = (marks? (b :: l)).getD "" := by
            rw [hy, hy', (String.append_right_inj _).mp hafter]
          rw [ih hlength' hrest hmarks]

end Status

def activeSetLines (status : Vector Status (n + m)) : List String :=
  [ "Current active set (x): " ++ (Status.marks? (onVariables status).toList).getD ""
  , "Current active set (g): " ++ (Status.marks? (onRows status).toList).getD "" ]

theorem eq_of_toList_marks? {k : ℕ} {v w : Vector Status k} (hw : ∀ e, (w.get e).mark?.isSome)
    (h : (Status.marks? v.toList).getD "" = (Status.marks? w.toList).getD "") : v = w := by
  have hlength : v.toList.length = w.toList.length := by
    rw [Vector.length_toList, Vector.length_toList]
  refine Vector.toList_inj.mp (Status.eq_of_marks? hlength (fun s hs => ?_) h)
  obtain ⟨i, hi, rfl⟩ := List.mem_iff_getElem.mp hs
  rw [Vector.getElem_toList]
  rw [Vector.length_toList] at hi
  exact hw ⟨i, hi⟩

theorem eq_of_activeSetLines {v w : Vector Status (n + m)} (hw : ∀ e, (w.get e).mark?.isSome)
    (h : activeSetLines v = activeSetLines w) : v = w := by
  obtain ⟨hx, hg⟩ := List.cons.inj h
  have hvariables : onVariables v = onVariables w :=
    eq_of_toList_marks? (fun i => by rw [get_onVariables]; exact hw _)
      ((String.append_right_inj _).mp hx)
  have hrows : onRows v = onRows w :=
    eq_of_toList_marks? (fun j => by rw [get_onRows]; exact hw _)
      ((String.append_right_inj _).mp (List.cons.inj hg).1)
  rw [← join_onVariables_onRows v, hvariables, hrows, join_onVariables_onRows]

end QuadraticProgram
