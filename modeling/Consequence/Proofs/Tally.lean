import Consequence.Proofs.Refinement
import Consequence.Puzzle.Basic

/-!
# What the tally counts

A context counts the entailments that it has examined and the valuations that they took, all of
them and those of the last. What it is asked for is more than that: one request may have none
examined, or one, or two for each of a row of queries, and the models are found without any. Which
entailments they are is spelled out by `Request.checks`, from the requests alone: the query of
each, and the knowledge and the configuration in force when its turn comes.

A tally that has counted a list of examinations one by one has the length, the sum and the last of
the list (`Tally.foldl_count`), so `after_tally` says of any run what the three numbers are.
-/

namespace Consequence

/-- Counting some examinations adds their number and their work; the last of them is on record, if
there is one. -/
theorem Tally.foldl_count (es : List Examination) : ∀ t : Tally,
    es.foldl count t =
      ⟨t.queries + es.length, t.leaves + (es.map (·.leaves)).sum,
        (es.map (·.leaves)).getLast?.getD t.lastLeaves⟩ := by
  induction es with
  | nil => exact fun _ => rfl
  | cons e es ih =>
      intro t
      rw [List.foldl_cons, ih, List.map_cons, List.length_cons, List.sum_cons,
        List.getLast?_cons, Option.getD_some, ← Nat.add_assoc]
      simp only [count, Nat.add_assoc, Nat.add_comm 1]

theorem length_flatMap_pair {α β : Type} (f g : α → β) (items : List α) :
    (items.flatMap fun a => [f a, g a]).length = 2 * items.length := by
  induction items with
  | nil => rfl
  | cons a items ih =>
      rw [List.flatMap_cons, List.length_append, ih]
      show 2 + 2 * items.length = 2 * (items.length + 1)
      omega

/-- Every classification counts as two queries. -/
theorem Tally.queries_foldl_countBoth (ks : List Classification) (t : Tally) :
    (ks.foldl countBoth t).queries = t.queries + 2 * ks.length := by
  rw [foldl_countBoth, foldl_count, ← length_flatMap_pair Classification.affirmed
    Classification.denied]
  rfl

theorem length_of_mapM_eq_ok {α β : Type} {f : α → Except Error β} {as : List α} :
    ∀ {bs : List β}, as.mapM f = .ok bs → bs.length = as.length := by
  induction as with
  | nil =>
      intro bs h
      obtain rfl : [] = bs := Except.ok.inj h
      rfl
  | cons a as ih =>
      intro bs h
      obtain ⟨b, rest, -, hrest, rfl⟩ := mapM_cons_eq_ok h
      rw [List.length_cons, List.length_cons, ih hrest]

namespace Request

/-- How many entailments a request has examined. -/
def examinations : Request → Nat
  | .entails _ | .satisfiable => 1
  | .classify _ => 2
  | .classifyAll queries => 2 * queries.length
  | .add _ | .models | .symbols | .knowledge | .set _ _ => 0

theorem length_queries (request : Request) : request.queries.length = request.examinations := by
  cases request with
  | classifyAll queries => exact length_flatMap_pair id .neg queries
  | add | entails | satisfiable | classify | models | symbols | knowledge | set => rfl

theorem length_checks (requests : List Request) : ∀ (config : Config) (conjuncts : List Sentence),
    (checks config conjuncts requests).length = (requests.map examinations).sum := by
  induction requests with
  | nil => exact fun _ _ => rfl
  | cons request requests ih =>
      intro config conjuncts
      rw [checks, List.length_append, List.length_map, length_queries, ih, List.map_cons,
        List.sum_cons]

end Request

namespace Context

/-- The tally is exact. After any row of requests it has as many queries as the requests have examined,
the sum of the valuations that these took, and those of the last of them, or none before the first.
Each was examined with the knowledge and the configuration in force then. -/
theorem after_tally (config : Config) (knowledge : Sentence) (requests : List Request) : ∃ es,
    (Request.checks config knowledge.conjuncts requests).mapM Check.examine = .ok es ∧
      ((ofKnowledge config knowledge).after requests).tally =
        { queries := (requests.map Request.examinations).sum
          leaves := (es.map (·.leaves)).sum
          lastLeaves := (es.map (·.leaves)).getLast?.getD 0 } := by
  obtain ⟨es, hes, hafter⟩ := after_eq requests (knowledge_ofKnowledge config knowledge)
  have hlength : es.length = (requests.map Request.examinations).sum := by
    rw [length_of_mapM_eq_ok hes, Request.length_checks]
  refine ⟨es, hes, ?_⟩
  rw [hafter, Tally.foldl_count, hlength]
  simp only [ofKnowledge, Nat.zero_add]

/-- Four valuations for the first query, none for the models, and for the classification two that
affirm and one that denies. -/
example : ((ofKnowledge {} (named "p")).after
    [.entails (.disj [named "p", named "q"]), .models, .classify (named "p")]).tally =
      ⟨3, 7, 1⟩ := by
  decide

end Context

end Consequence
