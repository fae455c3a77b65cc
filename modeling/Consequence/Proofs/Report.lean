import Mathlib.Tactic.Tauto
import Consequence.Classification
import Consequence.Proofs.Examination

/-!
# What a report says

A report is put together from two examinations, and what it says is about all models of the
knowledge at once: the query is true in every one of them, or in none, or in some only, or there
are no models. `Report.Describes` spells that out, and a classification gives a report that
describes the knowledge and the query (`classify_describes`), which no other report does.

The four cases are never gone through two at a time. A report is as good as the values that it
leaves open for the query in a model of the knowledge: one of the two, both, or neither. To
describe is then to leave open the values that the query has (`describes_iff`), so a query has one
report, negation exchanges the two values, and knowledge with fewer models leaves no more open
than before.
-/

namespace Consequence

namespace Sentence

/-- The query has the value in some model of the knowledge. -/
def Admits (knowledge query : Sentence) (value : Bool) : Prop :=
  ∃ a : Assignment, knowledge.truth a = true ∧ query.truth a = value

section

variable {knowledge knowledge' query : Sentence} {value : Bool}

theorem admits_neg : knowledge.Admits (neg query) value ↔ knowledge.Admits query (!value) := by
  simp only [Admits, truth, Bool.not_eq_eq_eq_not]

theorem Admits.mono (h : knowledge'.Entails knowledge) (hquery : knowledge'.Admits query value) :
    knowledge.Admits query value := by
  obtain ⟨a, hknowledge, hvalue⟩ := hquery
  exact ⟨a, h a hknowledge, hvalue⟩

theorem forall_truth_eq_iff :
    (∀ a : Assignment, knowledge.truth a = true → query.truth a = value) ↔
      ¬ knowledge.Admits query (!value) := by
  constructor
  · rintro h ⟨a, hknowledge, hquery⟩
    rw [h a hknowledge] at hquery
    cases value <;> cases hquery
  · intro h a hknowledge
    by_contra hquery
    exact h ⟨a, hknowledge, Bool.eq_not.2 hquery⟩

variable (query) in
/-- Where there is a model, the query has a value in it. -/
theorem exists_truth_iff :
    (∃ a : Assignment, knowledge.truth a = true) ↔
      knowledge.Admits query true ∨ knowledge.Admits query false := by
  constructor
  · rintro ⟨a, h⟩
    cases hquery : query.truth a with
    | true => exact .inl ⟨a, h, hquery⟩
    | false => exact .inr ⟨a, h, hquery⟩
  · rintro (⟨a, h, -⟩ | ⟨a, h, -⟩) <;> exact ⟨a, h⟩

end

end Sentence

open Sentence

namespace Report

/-! ## The meaning of a report -/

/-- The report is right about the query, over all assignments that make the knowledge true. -/
def Describes (r : Report) (knowledge query : Sentence) : Prop :=
  match r with
  | present =>
    (∃ a : Assignment, knowledge.truth a = true) ∧
      ∀ a : Assignment, knowledge.truth a = true → query.truth a = true
  | absent =>
    (∃ a : Assignment, knowledge.truth a = true) ∧
      ∀ a : Assignment, knowledge.truth a = true → query.truth a = false
  | undetermined =>
    (∃ a : Assignment, knowledge.truth a = true ∧ query.truth a = true) ∧
      ∃ a : Assignment, knowledge.truth a = true ∧ query.truth a = false
  | inconsistent => ∀ a : Assignment, knowledge.truth a = false

/-- The report on the negation of a query. -/
def opposite : Report → Report
  | present => absent
  | absent => present
  | r => r

/-- How a report on a query may be followed by another while the knowledge grows: what was
settled stays as it is, unless the knowledge becomes inconsistent, which it stays then. -/
def MayBecome : Report → Report → Prop
  | undetermined, _ => True
  | settled, r => r = settled ∨ r = inconsistent

/-! ## The values that a report leaves open -/

/-- Whether the report leaves it open that the query has the value in some model. -/
def allows : Report → Bool → Bool
  | present, value => value
  | absent, value => !value
  | undetermined, _ => true
  | inconsistent, _ => false

theorem ofEntailments_allows (r : Report) :
    ofEntailments (!r.allows false) (!r.allows true) = r := by
  cases r <;> rfl

theorem allows_false_ofEntailments (affirmed denied : Bool) :
    (ofEntailments affirmed denied).allows false = !affirmed := by
  cases affirmed <;> cases denied <;> rfl

theorem allows_true_ofEntailments (affirmed denied : Bool) :
    (ofEntailments affirmed denied).allows true = !denied := by
  cases affirmed <;> cases denied <;> rfl

theorem eq_of_allows {r r' : Report} (h : ∀ value, r.allows value = r'.allows value) : r = r' := by
  rw [← ofEntailments_allows r, h, h, ofEntailments_allows]

theorem allows_opposite (r : Report) (value : Bool) :
    r.opposite.allows value = r.allows (!value) := by
  cases r with
  | absent => exact (Bool.not_not value).symm
  | present | undetermined | inconsistent => rfl

theorem opposite_opposite (r : Report) : r.opposite.opposite = r := by
  cases r <;> rfl

theorem mayBecome_iff {r r' : Report} :
    r.MayBecome r' ↔ ∀ value, r'.allows value = true → r.allows value = true := by
  cases r <;> cases r' <;> simp [MayBecome, allows]

theorem not_present_mayBecome_absent : ¬ present.MayBecome absent := by
  rintro (h | h) <;> cases h

theorem eq_undetermined_of_mayBecome {r : Report} (h : r.MayBecome undetermined) :
    r = undetermined := by
  cases r with
  | undetermined => rfl
  | present | absent | inconsistent => rcases h with h | h <;> cases h

section

variable {r r' : Report} {knowledge knowledge' query : Sentence}

/-- A report is right just if the values that it leaves open are those that the query has. -/
theorem describes_iff :
    r.Describes knowledge query ↔ ∀ value, r.allows value = true ↔ knowledge.Admits query value := by
  -- Each report is now a combination of two facts: which of the two values the query has.
  rw [Bool.forall_bool]
  cases r with
  | present =>
      rw [Describes, exists_truth_iff query, forall_truth_eq_iff]
      simp only [allows, Bool.not_true, Bool.false_eq_true, false_iff, true_iff]
      tauto
  | absent =>
      rw [Describes, exists_truth_iff query, forall_truth_eq_iff]
      simp only [allows, Bool.not_true, Bool.not_false, Bool.false_eq_true, false_iff, true_iff]
      tauto
  | undetermined =>
      simp only [Describes, allows, Admits, true_iff]
      exact and_comm
  | inconsistent =>
      have hnone : (∀ a : Assignment, knowledge.truth a = false) ↔
          ¬ ∃ a : Assignment, knowledge.truth a = true := by simp
      rw [Describes, hnone, exists_truth_iff query]
      simp only [allows, Bool.false_eq_true, false_iff]
      tauto

/-- Of two reports on one query one is wrong. -/
theorem Describes.unique (h : r.Describes knowledge query) (h' : r'.Describes knowledge query) :
    r = r' :=
  eq_of_allows fun value => by
    rw [Bool.eq_iff_iff, describes_iff.1 h value, describes_iff.1 h' value]

/-- That the knowledge has no model is said without a word about the query. -/
theorem Describes.of_inconsistent (h : inconsistent.Describes knowledge query)
    (query' : Sentence) : inconsistent.Describes knowledge query' :=
  h

theorem describes_neg :
    r.Describes knowledge (.neg query) ↔ r.opposite.Describes knowledge query := by
  rw [describes_iff, describes_iff]
  simp only [allows_opposite, admits_neg]
  exact ⟨fun h value => by rw [h, Bool.not_not], fun h value => by rw [← h, Bool.not_not]⟩

/-- Knowledge that entails other knowledge has no models beside those of the other, and so the
reports on it leave nothing open that the other left settled. -/
theorem Describes.mayBecome (h : r.Describes knowledge query)
    (h' : r'.Describes knowledge' query) (hgrown : knowledge'.Entails knowledge) :
    r.MayBecome r' := by
  rw [mayBecome_iff]
  intro value hvalue
  rw [describes_iff.1 h]
  exact ((describes_iff.1 h' value).1 hvalue).mono hgrown

/-- The report that is put together from the two answers is right. -/
theorem describes_ofEntailments {affirmed denied : Bool}
    (haffirmed : affirmed = true ↔ knowledge.Entails query)
    (hdenied : denied = true ↔ knowledge.Entails (.neg query)) :
    (ofEntailments affirmed denied).Describes knowledge query := by
  rw [describes_iff]
  intro value
  cases value with
  | false =>
      rw [allows_false_ofEntailments, Bool.not_eq_true', ← Bool.not_eq_true, haffirmed, Entails,
        forall_truth_eq_iff, not_not, Bool.not_true]
  | true =>
      rw [allows_true_ofEntailments, Bool.not_eq_true', ← Bool.not_eq_true, hdenied, Entails,
        forall_truth_eq_iff, not_not, admits_neg, Bool.not_not]

end

end Report

/-! ## The report of a classification -/

/-- A classification succeeds, and what it reports is the case. -/
theorem classify_describes (knowledge query : Sentence) (config : Config) : ∃ k,
    classify knowledge query config = .ok k ∧ k.query = query ∧
      k.report.Describes knowledge query := by
  have haffirmed := examine_eq knowledge query config
  have hdenied := examine_eq knowledge (.neg query) config
  refine ⟨⟨query, _, _⟩, by rw [classify, haffirmed, hdenied]; rfl, rfl, ?_⟩
  refine Report.describes_ofEntailments ?_ ?_ <;>
    rw [Bool.not_eq_true', any_refutes_eq_false_iff]

/-- There is a right report on every query. -/
theorem exists_describes : ∃ report : Sentence → Sentence → Report,
    ∀ knowledge query, (report knowledge query).Describes knowledge query := by
  have hreport : ∀ knowledge query, ∃ r : Report, r.Describes knowledge query := by
    intro knowledge query
    obtain ⟨k, -, -, hdescribes⟩ := classify_describes knowledge query {}
    exact ⟨k.report, hdescribes⟩
  exact ⟨fun knowledge query => (hreport knowledge query).choose,
    fun knowledge query => (hreport knowledge query).choose_spec⟩

end Consequence
