import Consequence.Sentence.Evaluate

/-!
# The connectives by one another

Two sentences that are true under the same assignments need not have the same result where values
are missing: `p ∨ q` and `q ∨ p` may come to different errors, or one to a value and the other to
an error. The usual definitions of one connective by others do not suffer from that. Both sides
read the same names in the same order, and both stop at the same place, so they have one result,
and if it is an error it is about the same name (`evaluate_connectives`).

Conjunction and disjunction are the same thing twice. Each reads its parts until one of them has
the value that settles it, which is false for the one and true for the other; `readAll` has this
value as a parameter, and what is shown of it holds of both. Negation turns the settling value
round (`negate_readAll`), and a junction in a junction of its own kind reads as its parts do in its
place (`readAll_flatten`).
-/

namespace Consequence

/-! ## Results in a row -/

def negate (result : Except Error Bool) : Except Error Bool := do
  return !(← result)

/-- The second result counts unless the first settles the matter, being `stop` or an error. -/
def readOn (stop : Bool) (first second : Except Error Bool) : Except Error Bool := do
  if (← first) = stop then return stop else second

/-- Reads results up to the first that is `stop`. -/
def readAll (stop : Bool) (results : List (Except Error Bool)) : Except Error Bool :=
  results.foldr (readOn stop) (.ok !stop)

section

variable (stop : Bool)

theorem readOn_assoc (r s t : Except Error Bool) :
    readOn stop (readOn stop r s) t = readOn stop r (readOn stop s t) := by
  cases r with
  | error e => rfl
  | ok value => cases stop <;> cases value <;> rfl

/-- A last result that settles nothing makes no difference. -/
theorem readOn_ok_not (r : Except Error Bool) : readOn stop r (.ok !stop) = r := by
  cases r with
  | error e => rfl
  | ok value => cases stop <;> cases value <;> rfl

theorem ok_not_readOn (s : Except Error Bool) : readOn stop (.ok !stop) s = s := by
  cases stop <;> rfl

theorem negate_readOn (r s : Except Error Bool) :
    negate (readOn stop r s) = readOn (!stop) (negate r) (negate s) := by
  cases r with
  | error e => rfl
  | ok value => cases stop <;> cases value <;> rfl

theorem readAll_append (results more : List (Except Error Bool)) :
    readAll stop (results ++ more) = readOn stop (readAll stop results) (readAll stop more) := by
  induction results with
  | nil => exact (ok_not_readOn stop _).symm
  | cons r results ih =>
      show readOn stop r (readAll stop (results ++ more)) = _
      rw [ih, ← readOn_assoc]
      rfl

/-- What is read in one place may be a row by itself. -/
theorem readAll_flatten (before row after : List (Except Error Bool)) :
    readAll stop (before ++ [readAll stop row] ++ after) =
      readAll stop (before ++ row ++ after) := by
  have hrow : readAll stop [readAll stop row] = readAll stop row := readOn_ok_not stop _
  rw [readAll_append, readAll_append, hrow, readAll_append, readAll_append]

/-- The negated results settle the opposite matter at the same place. -/
theorem negate_readAll (results : List (Except Error Bool)) :
    negate (readAll stop results) = readAll (!stop) (results.map negate) := by
  induction results with
  | nil => rfl
  | cons r results ih =>
      show negate (readOn stop r (readAll stop results)) = _
      rw [negate_readOn, ih]
      rfl

end

/-! ## Sentences -/

namespace Sentence

variable (v : Valuation)

theorem evaluateAll_eq_readAll (parts : List Sentence) :
    evaluateAll v parts = readAll false (parts.map (·.evaluate v)) := by
  induction parts with
  | nil => rfl
  | cons p parts ih =>
      show _ = readOn false (p.evaluate v) (readAll false (parts.map (·.evaluate v)))
      rw [evaluateAll, ih]
      rcases p.evaluate v with e | _ | _ <;> rfl

theorem evaluateAny_eq_readAll (parts : List Sentence) :
    evaluateAny v parts = readAll true (parts.map (·.evaluate v)) := by
  induction parts with
  | nil => rfl
  | cons p parts ih =>
      show _ = readOn true (p.evaluate v) (readAll true (parts.map (·.evaluate v)))
      rw [evaluateAny, ih]
      rcases p.evaluate v with e | _ | _ <;> rfl

theorem evaluate_neg (p : Sentence) : (neg p).evaluate v = negate (p.evaluate v) := by
  rw [evaluate, negate]

theorem map_evaluate_neg (parts : List Sentence) :
    (parts.map neg).map (·.evaluate v) = (parts.map (·.evaluate v)).map negate := by
  rw [List.map_map, List.map_map]
  exact List.map_congr_left fun p _ => p.evaluate_neg v

theorem evaluate_conj (parts : List Sentence) :
    (conj parts).evaluate v = readAll false (parts.map (·.evaluate v)) := by
  rw [evaluate, evaluateAll_eq_readAll]

theorem evaluate_disj (parts : List Sentence) :
    (disj parts).evaluate v = readAll true (parts.map (·.evaluate v)) := by
  rw [evaluate, evaluateAny_eq_readAll]

theorem evaluate_imp (p q : Sentence) :
    (imp p q).evaluate v = readOn true (negate (p.evaluate v)) (q.evaluate v) := by
  rw [evaluate]
  rcases p.evaluate v with e | _ | _ <;> rfl

/-- Each connective has the result that its definition by others has, in every valuation, missing
values included: a negated junction that of the opposite junction of the negated parts, an
implication that of a disjunction, a biconditional that of two implications, and a junction that
of the junction in which a part of the same kind is replaced by its own parts. -/
theorem evaluate_connectives :
    (∀ parts : List Sentence,
      (neg (conj parts)).evaluate v = (disj (parts.map neg)).evaluate v) ∧
    (∀ parts : List Sentence,
      (neg (disj parts)).evaluate v = (conj (parts.map neg)).evaluate v) ∧
    (∀ p q : Sentence, (imp p q).evaluate v = (disj [neg p, q]).evaluate v) ∧
    (∀ p q : Sentence, (iff p q).evaluate v = (conj [imp p q, imp q p]).evaluate v) ∧
    (∀ before parts after : List Sentence, (conj (before ++ [conj parts] ++ after)).evaluate v =
      (conj (before ++ parts ++ after)).evaluate v) ∧
    (∀ before parts after : List Sentence, (disj (before ++ [disj parts] ++ after)).evaluate v =
      (disj (before ++ parts ++ after)).evaluate v) := by
  refine ⟨fun parts => ?_, fun parts => ?_, fun p q => ?_, fun p q => ?_,
    fun before parts after => ?_, fun before parts after => ?_⟩
  · rw [evaluate_neg, evaluate_conj, evaluate_disj, map_evaluate_neg, negate_readAll]
    rfl
  · rw [evaluate_neg, evaluate_disj, evaluate_conj, map_evaluate_neg, negate_readAll]
    rfl
  · have hlast : readOn true (q.evaluate v) (.ok false) = q.evaluate v := readOn_ok_not true _
    rw [evaluate_imp, evaluate_disj, ← evaluate_neg]
    show _ = readOn true ((neg p).evaluate v) (readOn true (q.evaluate v) (.ok false))
    rw [hlast]
  · -- After a true antecedent the first implication reads the consequent, else the second does.
    rw [evaluate_conj, List.map_cons, List.map_singleton, evaluate_imp, evaluate_imp, evaluate]
    rcases p.evaluate v with e | _ | _ <;> rcases q.evaluate v with e' | _ | _ <;> rfl
  · rw [evaluate_conj, evaluate_conj]
    simp only [List.map_append, List.map_singleton, evaluate_conj]
    exact readAll_flatten false _ _ _
  · rw [evaluate_disj, evaluate_disj]
    simp only [List.map_append, List.map_singleton, evaluate_disj]
    exact readAll_flatten true _ _ _

end Sentence

end Consequence
