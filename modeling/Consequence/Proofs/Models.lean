import Mathlib.Data.List.Nodup
import Consequence.Models
import Consequence.Proofs.Examination

/-!
# The list of models

The models of a sentence are collected by a walk of their own, over its symbols in the order of
the names. The walk visits the list of all valuations of these symbols from front to back, and
`models_eq` says what it brings back: the list, without the valuations on which the sentence is
false. In particular it always brings something back, for a sentence mentions no name but its
symbols.

All that is to be said of the list of models is then read off the list of valuations, whose order
and whose members are known. Leaving valuations out keeps what is left in order, and a list in
strict order has nothing twice: `models_ascending`.

An examination does not go by this list. It goes through the valuations of more names, those of
the query too, in an order of its own, and stops early. Still the list has all that an answer
depends on, `entails_iff_forall_models`: a query is entailed if it is true in every model listed,
once the model is extended by values for the names that only the query mentions, whatever these
values are.
-/

namespace Consequence

open Sentence

theorem modelsFrom_eq {knowledge : Sentence} {order : List String} : ∀ {m : Model},
    (∀ m' ∈ m.extensions order, ∀ n, knowledge.Mentions n → (m'.value? n).isSome) →
    modelsFrom knowledge order m =
      .ok ((m.extensions order).filter fun m' => knowledge.truth m'.assignment) := by
  induction order with
  | nil =>
      intro m h
      have heval : knowledge.evaluate m.value? = .ok (knowledge.truth m.assignment) :=
        Model.evaluate_value? (h m (List.mem_singleton.2 rfl))
      rw [modelsFrom, heval, Model.extensions, List.filter_cons, List.filter_nil]
      cases knowledge.truth m.assignment <;> rfl
  | cons name order ih =>
      intro m h
      rw [modelsFrom, ih fun m' hm' => h m' (List.mem_append_left _ hm'),
        ih fun m' hm' => h m' (List.mem_append_right _ hm'), Model.extensions,
        List.filter_append]
      rfl

/-- The models of a sentence are the valuations of its symbols that make it true. -/
theorem models_eq (knowledge : Sentence) :
    models knowledge = .ok ((Model.extensions knowledge.symbols.toList .empty).filter
      fun m => knowledge.truth m.assignment) := by
  refine modelsFrom_eq fun m hm n hn => ?_
  exact Model.isSome_value?_of_mem_extensions hm
    (.inl (NameSet.mem_toList.2 (mem_symbols.2 hn)))

theorem mem_models_iff {knowledge : Sentence} {m : Model} :
    (m ∈ (Model.extensions knowledge.symbols.toList .empty).filter
        fun m => knowledge.truth m.assignment) ↔
      m.domain = knowledge.symbols ∧ knowledge.truth m.assignment = true := by
  rw [List.mem_filter, Model.mem_extensions_empty fun _ => Iff.rfl]

/-- The models of a sentence are always found. They value the symbols of the sentence and no other
names, each valuation that makes the sentence true is there once, no other is there, and they
ascend in lexicographic order along the sorted symbols, true before false. -/
theorem models_ascending (knowledge : Sentence) : ∃ ms, models knowledge = .ok ms ∧
    (∀ m ∈ ms, m.domain = knowledge.symbols) ∧
    (∀ m : Model, m.domain = knowledge.symbols → knowledge.truth m.assignment = true →
      ms.count m = 1) ∧
    (∀ m ∈ ms, knowledge.truth m.assignment = true) ∧
    ms.Pairwise (Model.Precedes knowledge.symbols.toList) := by
  have hascending : ((Model.extensions knowledge.symbols.toList .empty).filter
      fun m => knowledge.truth m.assignment).Pairwise
        (Model.Precedes knowledge.symbols.toList) :=
    (Model.pairwise_extensions (nodup_of_pairwise_lt knowledge.symbols.sorted) .empty).filter _
  refine ⟨_, models_eq knowledge, fun m hm => (mem_models_iff.1 hm).1, fun m hdomain htruth => ?_,
    fun m hm => (mem_models_iff.1 hm).2, hascending⟩
  exact List.nodup_iff_count_eq_one.1 (Model.nodup_of_pairwise_precedes hascending) m
    (mem_models_iff.2 ⟨hdomain, htruth⟩)

/-! ## Extensions of a model -/

/-- What has a value in the second valuation has the same value in the first. -/
def Valuation.Extends (v' v : Valuation) : Prop :=
  ∀ n value, v n = some value → v' n = some value

theorem Valuation.extends_refl (v : Valuation) : v.Extends v :=
  fun _ _ => id

namespace Model

variable {m m' : Model}

theorem assignment_eq_of_extends (h : m'.value?.Extends m.value?) {n : String}
    (hn : n ∈ m.domain) : m'.assignment n = m.assignment n := by
  have hvalue := h n _ (value?_eq_some_assignment (mem_domain.1 hn))
  rw [assignment, hvalue, Option.getD_some]

theorem eq_of_extends (h : m'.value?.Extends m.value?) (hdomain : m'.domain = m.domain) :
    m' = m := by
  refine ext_value? fun n => ?_
  cases hn : m.value? n with
  | some value => exact h n value hn
  | none =>
      have hn' : n ∉ m'.domain := by rw [hdomain, mem_domain, hn]; exact Bool.false_ne_true
      rwa [mem_domain, Option.not_isSome_iff_eq_none] at hn'

/-- Of two models that have their values from one assignment, that of more names extends the
other. -/
theorem extends_of_assignment_eq {a : Assignment} (hnames : ∀ n ∈ m.domain, n ∈ m'.domain)
    (h : ∀ n ∈ m.domain, m.assignment n = a n) (h' : ∀ n ∈ m'.domain, m'.assignment n = a n) :
    m'.value?.Extends m.value? := by
  intro n value hvalue
  have hn : n ∈ m.domain := mem_domain.2 (Option.isSome_of_eq_some hvalue)
  have heq : some value = some (a n) := by
    rw [← hvalue, value?_eq_some_assignment (mem_domain.1 hn), h n hn]
  rw [heq, value?_eq_some_assignment (mem_domain.1 (hnames n hn)), h' n (hnames n hn)]

/-- A model that values the symbols of the query already is its only extension by them. -/
theorem forall_extension_iff {query : Sentence} {P : Model → Prop}
    (h : ∀ n ∈ query.symbols, n ∈ m.domain) :
    (∀ m' : Model, m'.value?.Extends m.value? → m'.domain = query.extendSymbols m.domain → P m') ↔
      P m := by
  have hdomain : query.extendSymbols m.domain = m.domain := NameSet.ext_mem fun n => by
    rw [mem_extendSymbols, or_iff_left_of_imp fun hn => h n (mem_symbols.2 hn)]
  constructor
  · intro hP
    exact hP m (Valuation.extends_refl _) hdomain.symm
  · intro hP m' hextends hm'
    rwa [eq_of_extends hextends (hm'.trans hdomain)]

end Model

/-! ## Entailment read off the list -/

section

variable {knowledge query : Sentence}

theorem evaluate_extension {m m' : Model} (hdomain : m'.domain = query.extendSymbols m.domain) :
    query.evaluate m'.value? = .ok (query.truth m'.assignment) := by
  refine Model.evaluate_value? fun n hn => ?_
  rw [← Model.mem_domain, hdomain, mem_extendSymbols]
  exact .inr hn

theorem entails_iff_forall_extension :
    entails knowledge query = .ok true ↔
      ∀ m : Model, m.domain = knowledge.symbols → knowledge.truth m.assignment = true →
        ∀ m' : Model, m'.value?.Extends m.value? → m'.domain = query.extendSymbols m.domain →
          query.evaluate m'.value? = .ok true := by
  rw [entails_eq_ok_true_iff]
  constructor
  · intro h m hm hknowledge m' hextends hm'
    have hm'knowledge : knowledge.truth m'.assignment = true := by
      rw [← hknowledge]
      exact truth_congr fun n hn =>
        Model.assignment_eq_of_extends hextends (hm ▸ mem_symbols.2 hn)
    rw [evaluate_extension hm', h m'.assignment hm'knowledge]
  · -- An assignment is a model as far as the symbols of the knowledge go, and an extension of
    -- that model as far as those of the query go.
    intro h a hknowledge
    obtain ⟨m, hm, hvalues⟩ := Model.exists_domain_eq a knowledge.symbols
    obtain ⟨m', hm', hvalues'⟩ := Model.exists_domain_eq a (query.extendSymbols m.domain)
    have hextends : m'.value?.Extends m.value? :=
      Model.extends_of_assignment_eq (fun n hn => hm' ▸ (mem_extendSymbols _).2 (.inl hn))
        (hm ▸ hvalues) (hm' ▸ hvalues')
    have hmknowledge : knowledge.truth m.assignment = true := by
      rw [truth_congr fun n hn => hvalues n (mem_symbols.2 hn), hknowledge]
    have hquery := h m hm hmknowledge m' hextends hm'
    rw [evaluate_extension hm'] at hquery
    rw [← Except.ok.inj hquery]
    exact truth_congr fun n hn => (hvalues' n ((mem_extendSymbols _).2 (.inr hn))).symm

end

/-- The list of models decides entailment. A query is entailed just if it comes out true in every
extension of every model listed by values for the symbols of the query; if these are symbols of the
knowledge, in every model listed as it stands. And the knowledge is satisfiable just if some model
is listed. -/
theorem entails_iff_forall_models (knowledge query : Sentence) : ∃ ms, models knowledge = .ok ms ∧
    (entails knowledge query = .ok true ↔
      ∀ m ∈ ms, ∀ m' : Model, m'.value?.Extends m.value? →
        m'.domain = query.extendSymbols m.domain → query.evaluate m'.value? = .ok true) ∧
    ((∀ n ∈ query.symbols, n ∈ knowledge.symbols) →
      (entails knowledge query = .ok true ↔ ∀ m ∈ ms, query.evaluate m.value? = .ok true)) ∧
    (satisfiable knowledge = .ok true ↔ ms ≠ []) := by
  obtain ⟨ms, hms, hmem⟩ : ∃ ms, models knowledge = .ok ms ∧
      ∀ m, m ∈ ms ↔ m.domain = knowledge.symbols ∧ knowledge.truth m.assignment = true :=
    ⟨_, models_eq knowledge, fun _ => mem_models_iff⟩
  have hextended : ∀ query : Sentence, entails knowledge query = .ok true ↔
      ∀ m ∈ ms, ∀ m' : Model, m'.value?.Extends m.value? →
        m'.domain = query.extendSymbols m.domain → query.evaluate m'.value? = .ok true := by
    intro query
    simp only [hmem, and_imp]
    exact entails_iff_forall_extension
  have hlisted : ∀ query : Sentence, (∀ n ∈ query.symbols, n ∈ knowledge.symbols) →
      (entails knowledge query = .ok true ↔ ∀ m ∈ ms, query.evaluate m.value? = .ok true) := by
    intro query hnames
    rw [hextended query]
    refine forall₂_congr fun m hm => Model.forall_extension_iff fun n hn => ?_
    exact ((hmem m).1 hm).1 ▸ hnames n hn
  refine ⟨ms, hms, hextended query, hlisted query, ?_⟩
  have hfalsum : ∀ m : Model, ¬ falsum.evaluate m.value? = .ok true := nofun
  rw [satisfiable_eq_ok_true_iff, hlisted .falsum nofun, not_iff_not]
  simp only [hfalsum, List.eq_nil_iff_forall_not_mem]

end Consequence
