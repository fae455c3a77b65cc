import Consequence.Sentence.Evaluate

/-!
# The search for a counter-model

Knowledge entails a query if the query is true on every valuation on which the knowledge is. The
search goes through the valuations one symbol at a time: it splits on the first symbol that has
no value yet, takes it as true, then as false, and asks the question at a leaf, where no symbol
is left. It holds at a leaf if the knowledge is false there, or the knowledge and the query are
both true.

A split is searched in one of two ways. In sequence, the false branch is searched only if the
true branch holds. Forked, both branches are searched whatever the first one answers, as they
would be side by side; the answer of the true branch still comes first, and only if it holds
does that of the false branch count. So the ways differ in the work done, and never in the
answer, not even if a branch meets a symbol without a value: an error in a forked false branch
is dropped just where a search in sequence would not have got there.

This takes it for granted that a forked branch comes back: side by side or not, it ends, it is
waited for, and what it reports is what it has computed. A branch that was lost would have to be
answered by `Error.branchLost`, and there is none here.

The work is part of the result: how many leaves were visited, and at which of them the knowledge
was true and the query false, in the order of the split.
-/

namespace Consequence

structure Search where
  answer : Except Error Bool
  leaves : Nat
  counterModels : List Model

namespace Search

/-- The question at a leaf, where every symbol has its value. -/
def leaf (knowledge query : Sentence) (m : Model) : Search :=
  match knowledge.evaluate m.value? with
  | .error e => ⟨.error e, 1, []⟩
  | .ok false => ⟨.ok true, 1, []⟩
  | .ok true =>
    match query.evaluate m.value? with
    | .error e => ⟨.error e, 1, []⟩
    | .ok true => ⟨.ok true, 1, []⟩
    | .ok false => ⟨.ok false, 1, [m]⟩

/-- Both branches of a split, searched in any case. -/
def both (first second : Search) : Search where
  answer :=
    match first.answer with
    | .ok true => second.answer
    | settled => settled
  leaves := first.leaves + second.leaves
  counterModels := first.counterModels ++ second.counterModels

/-- Both branches of a split, the second searched only if the first one holds. -/
def andThen (first : Search) (second : Unit → Search) : Search :=
  match first.answer with
  | .ok true => first.both (second ())
  | _ => first

/-- Searches the valuations that extend `m` by the names in `order`, the first `forks` splits
forked. -/
def run (knowledge query : Sentence) : (forks : Nat) → (order : List String) → Model → Search
  | _, [], m => leaf knowledge query m
  | 0, name :: order, m =>
    (run knowledge query 0 order (m.insert name true)).andThen fun _ =>
      run knowledge query 0 order (m.insert name false)
  | forks + 1, name :: order, m =>
    (run knowledge query forks order (m.insert name true)).both
      (run knowledge query forks order (m.insert name false))

end Search

end Consequence
