import Consequence.Proofs.Question
import Consequence.Proofs.Tally
import Consequence.Puzzle.Basic

/-!
# The order of additions

Contexts to which the same sentences were added, in another order or some of them twice, are not
equal: they hold conjunctions whose parts are in another order, and one request gives the
conjunction back as it stands. No other answer depends on more than what the conjunction says, and
that is the same in any order. It mentions the same names as well, so the lists of valuations are the
same and so is the work: this is where it matters that the names of a sentence form a set, which does
not remember when a name was met.

`Alike.step` says what one request keeps, and how two contexts that are alike reply to it;
`Alike.after` carries the likeness over a row of requests, of any kind. That two rows of requests
lead to contexts that are alike is read off the sentences that they add, so what else was asked in
between is of no account: `answerAlike_of_same_additions`.
-/

namespace Consequence

open Sentence

/-- A conjunction mentions and says what its parts do, in any order and however often each of them
stands there. -/
theorem Sentence.conj_interchangeable {parts parts' : List Sentence}
    (h : ∀ p, p ∈ parts ↔ p ∈ parts') : (conj parts).Interchangeable (conj parts') where
  mentions n := by simp only [mentions_conj, h]
  truth a := by
    rw [truth_conj, truth_conj, Bool.eq_iff_iff]
    simp only [List.all_eq_true, h]

/-! ## Interchangeable knowledge -/

theorem Sentence.Interchangeable.models_eq {knowledge knowledge' : Sentence}
    (h : knowledge.Interchangeable knowledge') : models knowledge = models knowledge' := by
  rw [Consequence.models_eq, Consequence.models_eq, h.symbols_eq]
  simp only [h.truth]

/-- But for the knowledge itself, no answer tells interchangeable conjunctions apart. -/
theorem Request.answerFrom_congr {parts parts' : List Sentence}
    (h : (conj parts).Interchangeable (conj parts')) (config : Config)
    {request : Request} (hrequest : request ≠ .knowledge) :
    request.answerFrom config (.conj parts) = request.answerFrom config (.conj parts') := by
  cases request with
  | entails query => rw [answerFrom, h.entails_eq, answerFrom]
  | satisfiable =>
      rw [answerFrom, Consequence.satisfiable, h.entails_eq, answerFrom, Consequence.satisfiable]
  | classify query => rw [answerFrom, h.classify_eq, answerFrom]
  | classifyAll queries => simp only [answerFrom, h.classify_eq]
  | models => rw [answerFrom, h.models_eq, answerFrom]
  | symbols => rw [answerFrom, h.symbols_eq, answerFrom]
  | knowledge => exact absurd rfl hrequest
  | add | set => rfl

/-! ## Contexts that are alike -/

/-- Where something is counted, the last count does not depend on the tally before. -/
theorem Tally.lastLeaves_foldl_count {es : List Examination} (h : es ≠ []) (t t' : Tally) :
    (es.foldl count t).lastLeaves = (es.foldl count t').lastLeaves := by
  cases es with
  | nil => exact absurd rfl h
  | cons e es => rw [List.foldl_cons, List.foldl_cons, foldl_count, foldl_count, count, count]

namespace Context

/-- The configuration is the same, and both hold conjunctions of the same sentences, in whatever
order and however often. -/
structure Alike (c c' : Context) : Prop where
  config : c.config = c'.config
  conjuncts : ∃ parts parts', c.knowledge = .conj parts ∧ c'.knowledge = .conj parts' ∧
    ∀ p, p ∈ parts ↔ p ∈ parts'

/-- Both contexts give the same answer to the request, unless it asks for the knowledge as it stands;
and if it has something examined, the last examination takes as many valuations in both. -/
def AnswerAlike (c c' : Context) (request : Request) : Prop :=
  (request ≠ .knowledge → (c.step request).answer = (c'.step request).answer) ∧
    (request.queries ≠ [] → (c.step request).context.tally.lastLeaves =
      (c'.step request).context.tally.lastLeaves)

/-- Contexts that are alike answer a request alike and stay alike. -/
theorem Alike.step {c c' : Context} (h : c.Alike c') (request : Request) :
    (c.step request).context.Alike (c'.step request).context ∧ c.AnswerAlike c' request := by
  obtain ⟨parts, parts', hc, hc', hparts⟩ := h.conjuncts
  have hinterchangeable := conj_interchangeable hparts
  obtain ⟨es, events, hes, hstep⟩ := c.step_eq_count request
  obtain ⟨es', events', hes', hstep'⟩ := c'.step_eq_count request
  rw [hc, Request.extend_conj, h.config] at hstep
  rw [hc', Request.extend_conj] at hstep'
  have hsame : es' = es := by
    rw [hc'] at hes'
    simp only [hc, hinterchangeable.examine_eq, h.config, hes'] at hes
    exact Except.ok.inj hes
  rw [AnswerAlike, hstep, hstep', hsame]
  refine ⟨⟨rfl, _, _, rfl, rfl, fun p => ?_⟩, fun hrequest => ?_, fun hqueries => ?_⟩
  · rw [List.mem_append, List.mem_append, hparts]
  · exact Request.answerFrom_congr hinterchangeable _ hrequest
  · have hsome : es ≠ [] := by
      rwa [ne_eq, ← List.length_eq_zero_iff, length_of_mapM_eq_ok hes, List.length_eq_zero_iff]
    exact Tally.lastLeaves_foldl_count hsome _ _

theorem Alike.after (requests : List Request) : ∀ {c c' : Context}, c.Alike c' →
    (c.after requests).Alike (c'.after requests) := by
  induction requests with
  | nil => exact id
  | cons request requests ih => exact fun h => ih (h.step request).1

/-! ## Contexts that were built up -/

/-- The context that a row of requests leaves, from empty knowledge on. -/
def built (config : Config) (requests : List Request) : Context :=
  ({ config := config } : Context).after requests

theorem built_alike {config config' : Config} {before before' : List Request}
    (hconfig : before.foldl Request.configure config = before'.foldl Request.configure config')
    (hadded : ∀ p, p ∈ Request.added before ↔ p ∈ Request.added before') :
    (built config before).Alike (built config' before') := by
  obtain ⟨es, -, hafter⟩ := after_eq before (knowledge_ofKnowledge config (.conj []))
  obtain ⟨es', -, hafter'⟩ := after_eq before' (knowledge_ofKnowledge config' (.conj []))
  refine ⟨?_, _, _, congrArg knowledge hafter, congrArg knowledge hafter', hadded⟩
  exact (congrArg Context.config hafter).trans
    (hconfig.trans (congrArg Context.config hafter').symm)

/-- The order and the repetition of additions do not matter. Of two contexts that were built up from
nothing, and have the same configuration in the end and the same set of sentences added, both give
the same answers from then on, to queries, for the symbols and for the models in their order, and
take as many valuations each time. -/
theorem answerAlike_of_same_additions {config config' : Config} {before before' : List Request}
    (hconfig : before.foldl Request.configure config = before'.foldl Request.configure config')
    (hadded : ∀ p, p ∈ Request.added before ↔ p ∈ Request.added before')
    (between : List Request) (request : Request) :
    AnswerAlike (built config (before ++ between)) (built config' (before' ++ between)) request := by
  have hbuilt : (built config (before ++ between)).Alike (built config' (before' ++ between)) := by
    rw [built, built, after_append, after_append]
    exact (built_alike hconfig hadded).after between
  exact (hbuilt.step request).2

/-- To add `p` and then `p => q`, or these in the other order, one of them twice and with a query in
between: either way `q` is classified alike. -/
theorem answerAlike_of_two_additions :
    AnswerAlike (built {} ([.add (named "p"), .add (.imp (named "p") (named "q"))] ++ [.satisfiable]))
      (built {} ([.add (.imp (named "p") (named "q")), .entails (named "q"), .add (named "p"),
        .add (.imp (named "p") (named "q"))] ++ [.satisfiable]))
      (.classify (named "q")) := by
  have hadded : ∀ r, r ∈ Request.added [.add (named "p"), .add (.imp (named "p") (named "q"))] ↔
      r ∈ Request.added [.add (.imp (named "p") (named "q")), .entails (named "q"),
        .add (named "p"), .add (.imp (named "p") (named "q"))] := by
    intro r
    simp only [Request.added, List.filterMap_cons, Request.addition?, List.filterMap_nil,
      List.mem_cons, List.not_mem_nil, or_false]
    tauto
  have hconfig : List.foldl Request.configure {}
      [.add (named "p"), .add (.imp (named "p") (named "q"))] =
    List.foldl Request.configure {} [.add (.imp (named "p") (named "q")), .entails (named "q"),
      .add (named "p"), .add (.imp (named "p") (named "q"))] := rfl
  exact answerAlike_of_same_additions hconfig hadded [.satisfiable] (.classify (named "q"))

end Context

end Consequence
