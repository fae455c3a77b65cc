import Consequence.Classification
import Consequence.Proofs.Examination

/-!
# What an examination sees of a question

To examine a query is to ask whether an implication holds on every valuation: the knowledge
implies the query. Nothing else about the two sentences comes through. The names of the
implication fix the order of splits and the list of valuations, its truth on each of them says
whether the search stops there, and so two questions whose implications mention the same names
and are true together are examined alike, step for step, in every configuration. That is
`Interchangeable.examinedAlike`.

The laws by which a question is put in another way are then laws of truth tables. A premise can
be moved into the query, a query can be refuted in place of being affirmed, and a question can
be turned round. None of the three changes the answer, which is no surprise, nor the number of
valuations that it takes, which would be one for a search that looked at the shape of a sentence.
-/

namespace Consequence

namespace Sentence

/-- Both sentences mention the same names and are true under the same assignments. -/
structure Interchangeable (p q : Sentence) : Prop where
  mentions : ∀ n, p.Mentions n ↔ q.Mentions n
  truth : ∀ a : Assignment, p.truth a = q.truth a

namespace Interchangeable

variable {p p' q : Sentence}

theorem refl (p : Sentence) : p.Interchangeable p :=
  ⟨fun _ => Iff.rfl, fun _ => rfl⟩

theorem imp_left (h : p.Interchangeable p') (q : Sentence) :
    (imp p q).Interchangeable (imp p' q) where
  mentions n := by rw [mentions_imp, mentions_imp, h.mentions]
  truth a := by rw [Sentence.truth, Sentence.truth, h.truth]

theorem symbols_eq (h : p.Interchangeable q) : p.symbols = q.symbols :=
  NameSet.ext_mem fun n => by rw [mem_symbols, mem_symbols, h.mentions]

end Interchangeable

/-! ## The same question in other words -/

/-- A conjunction of one part says what the part says. -/
theorem conj_singleton_interchangeable (p : Sentence) : (conj [p]).Interchangeable p where
  mentions n := by simp
  truth a := by simp

/-- The last premise can be moved into the query. -/
theorem deduction (premises : List Sentence) (p query : Sentence) :
    (imp (conj (premises ++ [p])) query).Interchangeable
      (imp (conj premises) (imp p query)) where
  mentions n := by
    simp only [mentions_imp, mentions_conj, List.mem_append, List.mem_singleton, or_and_right,
      exists_or, exists_eq_left, or_assoc]
  truth a := by
    simp only [Sentence.truth, truthAll_eq_all, List.all_append, List.all_cons, List.all_nil,
      Bool.and_true, Bool.not_and, Bool.or_assoc]

/-- The negation of the query can be put to the premises, to be refuted. -/
theorem refutation (knowledge query : Sentence) :
    (imp knowledge query).Interchangeable (imp (conj [knowledge, neg query]) falsum) where
  mentions n := by simp [falsum]
  truth a := by simp [Sentence.truth, falsum, truthAll]

/-- A question can be turned round. -/
theorem contraposition (knowledge query : Sentence) :
    (imp knowledge query).Interchangeable (imp (neg query) (neg knowledge)) where
  mentions n := by
    rw [mentions_imp, mentions_imp, mentions_neg, mentions_neg, or_comm]
  truth a := by
    rw [Sentence.truth, Sentence.truth, Sentence.truth, Sentence.truth, Bool.not_not,
      Bool.or_comm]

end Sentence

/-! ## The outcome depends on the question -/

/-- Two questions are examined with one outcome in the configuration: the same answer, from as
many symbols, after as many valuations and past the same counter-models. Only the query that is
put on record is each time the query that was asked. -/
def ExaminedAlike (config : Config) (knowledge query knowledge' query' : Sentence) : Prop :=
  ∃ e : Examination, examine knowledge query config = .ok e ∧
    examine knowledge' query' config = .ok { e with query := query' }

open Sentence

section

variable {knowledge query knowledge' query' : Sentence}

theorem Model.refutes_eq (m : Model) (knowledge query : Sentence) :
    m.refutes knowledge query = !(Sentence.imp knowledge query).truth m.assignment := by
  rw [refutes, Sentence.truth, Bool.not_or, Bool.not_not]

theorem Sentence.Interchangeable.examinedAlike
    (h : (Sentence.imp knowledge query).Interchangeable (.imp knowledge' query'))
    (config : Config) : ExaminedAlike config knowledge query knowledge' query' := by
  have hsymbols : jointSymbols knowledge query = jointSymbols knowledge' query' := h.symbols_eq
  have hrefutes : ∀ m : Model, m.refutes knowledge query = m.refutes knowledge' query' := by
    intro m
    rw [Model.refutes_eq, Model.refutes_eq, h.truth]
  have hvaluations : valuations knowledge query config = valuations knowledge' query' config := by
    rw [valuations, valuations, hsymbols]
  have hblocks : blocks knowledge query config = blocks knowledge' query' config := by
    simp only [blocks, blockSize, forkedSplits, hvaluations, hsymbols]
  have hexamined : examined knowledge query = examined knowledge' query' := by
    funext block
    simp only [examined, hrefutes]
  refine ⟨_, examine_eq knowledge query config, ?_⟩
  rw [examine_eq]
  simp only [hsymbols, hvaluations, hblocks, hexamined, hrefutes]

/-- It is enough that the two implications are true together on the models that give a value to
each of the names and to no other. -/
theorem interchangeable_of_models
    (hnames : ∀ n, n ∈ knowledge.symbols ∨ n ∈ query.symbols ↔
      n ∈ knowledge'.symbols ∨ n ∈ query'.symbols)
    (htruth : ∀ m : Model, (∀ n, n ∈ m.domain ↔ n ∈ knowledge.symbols ∨ n ∈ query.symbols) →
      (knowledge.truth m.assignment = false ∨ query.truth m.assignment = true ↔
        knowledge'.truth m.assignment = false ∨ query'.truth m.assignment = true)) :
    (Sentence.imp knowledge query).Interchangeable (.imp knowledge' query') := by
  have hmentions : ∀ n, (Sentence.imp knowledge query).Mentions n ↔
      (Sentence.imp knowledge' query').Mentions n := by
    intro n
    simpa only [mentions_imp, mem_symbols] using hnames n
  refine ⟨hmentions, fun a => ?_⟩
  -- No more of the assignment is read than what a model of these names has of it.
  obtain ⟨m, hdomain, hvalues⟩ := Model.exists_domain_eq a (Sentence.imp knowledge query).symbols
  have hm : (Sentence.imp knowledge query).truth m.assignment =
      (Sentence.imp knowledge' query').truth m.assignment := by
    rw [Bool.eq_iff_iff]
    simpa [Sentence.truth] using htruth m fun n => by
      rw [hdomain, mem_symbols, mentions_imp, mem_symbols, mem_symbols]
  calc (Sentence.imp knowledge query).truth a
      = (Sentence.imp knowledge query).truth m.assignment :=
        truth_congr fun n hn => (hvalues n (mem_symbols.2 hn)).symm
    _ = (Sentence.imp knowledge' query').truth m.assignment := hm
    _ = (Sentence.imp knowledge' query').truth a :=
        truth_congr fun n hn => hvalues n (mem_symbols.2 ((hmentions n).2 hn))

/-- Interchangeable knowledge is examined with the very same outcome. -/
theorem Sentence.Interchangeable.examine_eq (h : knowledge.Interchangeable knowledge')
    (query : Sentence) (config : Config) :
    examine knowledge query config = examine knowledge' query config := by
  obtain ⟨e, he, he'⟩ := (h.imp_left query).examinedAlike config
  have hquery : e.query = query := congrArg Examination.query (eq_of_examine he)
  rw [he, he', ← hquery]

theorem Sentence.Interchangeable.entails_eq (h : knowledge.Interchangeable knowledge')
    (query : Sentence) : entails knowledge query = entails knowledge' query := by
  rw [entails, h.examine_eq, entails]

theorem Sentence.Interchangeable.classify_eq (h : knowledge.Interchangeable knowledge')
    (query : Sentence) (config : Config) :
    classify knowledge query config = classify knowledge' query config := by
  rw [classify, h.examine_eq, h.examine_eq, classify]

end

/-- An examination is of a question and not of the two sentences that put it. If the implications
from knowledge to query mention the same names and are true together on all valuations of these
names, both are examined alike in every configuration; in particular if a premise was moved into
the query, if the query was negated to be refuted, or if the question was turned round. -/
theorem examinedAlike_of_same_question (config : Config) :
    (∀ knowledge query knowledge' query' : Sentence,
      (∀ n, n ∈ knowledge.symbols ∨ n ∈ query.symbols ↔
        n ∈ knowledge'.symbols ∨ n ∈ query'.symbols) →
      (∀ m : Model, (∀ n, n ∈ m.domain ↔ n ∈ knowledge.symbols ∨ n ∈ query.symbols) →
        (knowledge.truth m.assignment = false ∨ query.truth m.assignment = true ↔
          knowledge'.truth m.assignment = false ∨ query'.truth m.assignment = true)) →
      ExaminedAlike config knowledge query knowledge' query') ∧
    (∀ (premises : List Sentence) (p query : Sentence),
      ExaminedAlike config (.conj (premises ++ [p])) query (.conj premises) (.imp p query)) ∧
    (∀ knowledge query : Sentence,
      ExaminedAlike config knowledge query (.conj [knowledge, .neg query]) .falsum) ∧
    ∀ knowledge query : Sentence,
      ExaminedAlike config knowledge query (.neg query) (.neg knowledge) := by
  refine ⟨fun knowledge query knowledge' query' hnames htruth => ?_, fun premises p query => ?_,
    fun knowledge query => ?_, fun knowledge query => ?_⟩
  · exact (interchangeable_of_models hnames htruth).examinedAlike config
  · exact (deduction premises p query).examinedAlike config
  · exact (refutation knowledge query).examinedAlike config
  · exact (contraposition knowledge query).examinedAlike config

/-- That `p` follows from `p <=> q`, and that `q` follows from `¬p`, are one question; here both
are put in a shuffled order with forked splits. -/
theorem examinedAlike_iff_neg :
    ExaminedAlike
      { parallel := ⟨"parallel", false, true, true⟩
        symbolOrder := ⟨"symbol_order", .lexicographic, .shuffled, .shuffled⟩ }
      (.iff (.symbol ⟨"p", by decide⟩) (.symbol ⟨"q", by decide⟩)) (.symbol ⟨"p", by decide⟩)
      (.neg (.symbol ⟨"p", by decide⟩)) (.symbol ⟨"q", by decide⟩) := by
  refine (examinedAlike_of_same_question _).1 _ _ _ _ (fun n => ?_) fun m _ => ?_
  · simp only [mem_symbols, mentions_iff, mentions_neg, mentions_symbol]
    rw [or_right_comm, or_self]
  · simp only [Sentence.truth]
    cases m.assignment "p" <;> cases m.assignment "q" <;> decide

end Consequence
