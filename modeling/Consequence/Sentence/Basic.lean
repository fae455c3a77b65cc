import Consequence.Symbol

/-!
# Sentences of propositional logic

A sentence is a symbol, a negation, a conjunction or disjunction of any number of parts in
order, an implication, or a biconditional. A junction may have no part at all: the empty
conjunction is the sentence that is always true, the empty disjunction the one that is never
true. Equality is equality of trees, so the order of the parts counts, although it never counts
for the value.

A sentence is built once and read from then on. The one way in which it grows is `Sentence.add`,
by a further part of a junction.
-/

namespace Consequence

inductive Sentence where
  | symbol (s : Symbol)
  | neg (p : Sentence)
  | conj (parts : List Sentence)
  | disj (parts : List Sentence)
  | imp (antecedent consequent : Sentence)
  | iff (left right : Sentence)

namespace Sentence

/-- To show something of every sentence, show it of each kind of sentence from its children.
The recursor that comes with the type has a second motive for lists of parts; this one asks for
every member of the list instead. -/
@[elab_as_elim, induction_eliminator]
theorem induction {motive : Sentence → Prop} (symbol : ∀ s, motive (.symbol s))
    (neg : ∀ p, motive p → motive (.neg p))
    (conj : ∀ parts, (∀ p ∈ parts, motive p) → motive (.conj parts))
    (disj : ∀ parts, (∀ p ∈ parts, motive p) → motive (.disj parts))
    (imp : ∀ p q, motive p → motive q → motive (.imp p q))
    (iff : ∀ p q, motive p → motive q → motive (.iff p q)) : ∀ p, motive p
  | .symbol s => symbol s
  | .neg p => neg p (induction symbol neg conj disj imp iff p)
  | .conj parts => conj parts fun p _ => induction symbol neg conj disj imp iff p
  | .disj parts => disj parts fun p _ => induction symbol neg conj disj imp iff p
  | .imp p q =>
    imp p q (induction symbol neg conj disj imp iff p) (induction symbol neg conj disj imp iff q)
  | .iff p q =>
    iff p q (induction symbol neg conj disj imp iff p) (induction symbol neg conj disj imp iff q)
termination_by p => sizeOf p
decreasing_by
  all_goals simp_wf
  all_goals try have hp := List.sizeOf_lt_of_mem ‹_ ∈ parts›
  all_goals omega

mutual

def decEq : (p q : Sentence) → Decidable (p = q)
  | .symbol s, .symbol t => decidable_of_iff (s = t) (by simp)
  | .neg p, .neg q =>
    match decEq p q with
    | isTrue h => isTrue (by rw [h])
    | isFalse h => isFalse (by simp [h])
  | .conj ps, .conj qs =>
    match decEqAll ps qs with
    | isTrue h => isTrue (by rw [h])
    | isFalse h => isFalse (by simp [h])
  | .disj ps, .disj qs =>
    match decEqAll ps qs with
    | isTrue h => isTrue (by rw [h])
    | isFalse h => isFalse (by simp [h])
  | .imp p p', .imp q q' =>
    match decEq p q, decEq p' q' with
    | isTrue h, isTrue h' => isTrue (by rw [h, h'])
    | isFalse h, _ => isFalse (by simp [h])
    | _, isFalse h' => isFalse (by simp [h'])
  | .iff p p', .iff q q' =>
    match decEq p q, decEq p' q' with
    | isTrue h, isTrue h' => isTrue (by rw [h, h'])
    | isFalse h, _ => isFalse (by simp [h])
    | _, isFalse h' => isFalse (by simp [h'])
  | .symbol _, .neg _ | .symbol _, .conj _ | .symbol _, .disj _ | .symbol _, .imp _ _
  | .symbol _, .iff _ _ | .neg _, .symbol _ | .neg _, .conj _ | .neg _, .disj _
  | .neg _, .imp _ _ | .neg _, .iff _ _ | .conj _, .symbol _ | .conj _, .neg _
  | .conj _, .disj _ | .conj _, .imp _ _ | .conj _, .iff _ _ | .disj _, .symbol _
  | .disj _, .neg _ | .disj _, .conj _ | .disj _, .imp _ _ | .disj _, .iff _ _
  | .imp _ _, .symbol _ | .imp _ _, .neg _ | .imp _ _, .conj _ | .imp _ _, .disj _
  | .imp _ _, .iff _ _ | .iff _ _, .symbol _ | .iff _ _, .neg _ | .iff _ _, .conj _
  | .iff _ _, .disj _ | .iff _ _, .imp _ _ => isFalse nofun

def decEqAll : (ps qs : List Sentence) → Decidable (ps = qs)
  | [], [] => isTrue rfl
  | p :: ps, q :: qs =>
    match decEq p q, decEqAll ps qs with
    | isTrue h, isTrue h' => isTrue (by rw [h, h'])
    | isFalse h, _ => isFalse (by simp [h])
    | _, isFalse h' => isFalse (by simp [h'])
  | [], _ :: _ | _ :: _, [] => isFalse nofun

end

instance : DecidableEq Sentence := decEq

/-- The sentence that no valuation makes true. -/
def falsum : Sentence := .disj []

/-- The immediate parts of a sentence, in order. -/
def children : Sentence → List Sentence
  | .symbol _ => []
  | .neg p => [p]
  | .conj parts | .disj parts => parts
  | .imp p q | .iff p q => [p, q]

/-- Gives a conjunction or disjunction one more part, after those that it has. -/
def add : Sentence → Sentence → Except Error Sentence
  | .conj parts, p => .ok (.conj (parts ++ [p]))
  | .disj parts, p => .ok (.disj (parts ++ [p]))
  | _, _ => .error .notExtendable

@[simp] theorem add_conj (parts : List Sentence) (p : Sentence) :
    (conj parts).add p = .ok (conj (parts ++ [p])) := rfl

end Sentence

end Consequence
