import Mathlib.Data.Multiset.Defs
import Consequence.Proofs.Models

/-!
# The counter-models that are logged

An examination leaves a trace: an event for each valuation that it came upon with the knowledge
true and the query false. Nothing in an answer depends on the trace, so nothing else would show
it if a valuation were logged that is no counter-model, or one too many.

Which ones are logged is fixed by the blocks in which the valuations are gone through. Each block
is left at its first counter-model, and that one is logged; `examine_logged` says so and draws the
conclusions. The events of blocks that are searched side by side come in any order, so the trace
is a multiset.

With the sentence that is never true as the query, a counter-model is a model of the knowledge. If
also every split is forked, then every block is one valuation and none is passed over, and the
trace is the list of models, which another procedure finds. The two go through the valuations in
different orders; `Model.extensions_perm` is what makes up for that.
-/

namespace Consequence

open Sentence

/-! ## The trace -/

/-- The valuation, if the event is about a counter-model. -/
def Event.counterModel? : Event → Option Model
  | .counterModel m => some m
  | _ => none

/-- The valuations in the counter-model events of an examination. -/
def Examination.logged (e : Examination) : List Model :=
  e.events.filterMap Event.counterModel?

theorem Examination.logged_eq (e : Examination) : e.logged = e.counterModels := by
  rw [logged, events, List.filterMap_append, List.filterMap_cons_none rfl, List.filterMap_map]
  show e.counterModels.filterMap some ++ [] = _
  rw [List.filterMap_some, List.append_nil]

section

variable {knowledge query : Sentence} {config : Config} {e : Examination}

/-- Of each block with a counter-model the first one is logged. -/
theorem logged_of_examine (h : examine knowledge query config = .ok e) :
    e.logged = (blocks knowledge query config).filterMap
      fun block => block.find? (·.refutes knowledge query) := by
  rw [Examination.logged_eq, List.filterMap_eq_flatMap_toList]
  exact congrArg Examination.counterModels (eq_of_examine h)

theorem domain_of_mem_logged (h : examine knowledge query config = .ok e) {m : Model}
    (hm : m ∈ e.logged) : m.domain = jointSymbols knowledge query := by
  rw [logged_of_examine h, List.mem_filterMap] at hm
  obtain ⟨block, hblock, hfind⟩ := hm
  rw [← mem_valuations knowledge query config, ← flatten_blocks]
  exact List.mem_flatten.2 ⟨block, hblock, List.mem_of_find?_eq_some hfind⟩

/-- Nothing is logged just if there is no counter-model. -/
theorem logged_eq_nil_iff (h : examine knowledge query config = .ok e) :
    e.logged = [] ↔ e.entailed = true := by
  have hentailed : e.entailed =
      !(valuations knowledge query config).any (·.refutes knowledge query) :=
    congrArg Examination.entailed (eq_of_examine h)
  rw [logged_of_examine h, hentailed, List.filterMap_eq_nil_iff, Bool.not_eq_true',
    List.any_eq_false, ← flatten_blocks]
  constructor
  · intro hnone m hm
    obtain ⟨block, hblock, hmem⟩ := List.mem_flatten.1 hm
    exact List.find?_eq_none.1 (hnone block hblock) m hmem
  · intro hnone block hblock
    exact List.find?_eq_none.2 fun m hm => hnone m (List.mem_flatten.2 ⟨block, hblock, hm⟩)

/-- At most one counter-model is logged for each way through the forked splits. -/
theorem length_logged_le (h : examine knowledge query config = .ok e) :
    e.logged.length ≤ 2 ^ forkedSplits knowledge query config := by
  rw [logged_of_examine h, ← length_cut (2 ^ forkedSplits knowledge query config)]
  exact List.length_filterMap_le _ _

end

/-! ## Where every split is forked -/

theorem filterMap_find?_singletons {α : Type} (p : α → Bool) (items : List α) :
    (items.map ([·])).filterMap (·.find? p) = items.filter p := by
  induction items with
  | nil => rfl
  | cons a items ih =>
      rw [List.map_cons, List.filterMap_cons, List.find?_singleton, ih, List.filter_cons]
      cases p a <;> rfl

section

variable {knowledge query : Sentence} {config : Config}

theorem blocks_eq_singletons
    (h : (splitOrder (jointSymbols knowledge query) config).length ≤ config.forkDepth) :
    blocks knowledge query config = (valuations knowledge query config).map ([·]) := by
  -- There are as many ways through the forked splits as there are valuations.
  have hlength := length_valuations knowledge query config
  rw [blockSize, forkedSplits, Nat.min_eq_right h, Nat.sub_self, Nat.pow_zero,
    Nat.mul_one] at hlength
  rw [blocks, blockSize, forkedSplits, Nat.min_eq_right h, Nat.sub_self, Nat.pow_zero, ← hlength,
    cut_one]

/-- Then every counter-model is logged. -/
theorem logged_of_forked {e : Examination} (he : examine knowledge query config = .ok e)
    (h : (splitOrder (jointSymbols knowledge query) config).length ≤ config.forkDepth) :
    e.logged = (valuations knowledge query config).filter (·.refutes knowledge query) := by
  rw [logged_of_examine he, blocks_eq_singletons h, filterMap_find?_singletons]

end

theorem Model.refutes_falsum (m : Model) (knowledge : Sentence) :
    m.refutes knowledge .falsum = knowledge.truth m.assignment :=
  Bool.and_true _

/-- The models of the knowledge are the counter-models of the sentence that is never true. -/
theorem logged_perm_models {knowledge : Sentence} {config : Config} {e : Examination}
    (he : examine knowledge .falsum config = .ok e)
    (h : (splitOrder knowledge.symbols config).length ≤ config.forkDepth) :
    e.logged.Perm ((Model.extensions knowledge.symbols.toList .empty).filter
      fun m => knowledge.truth m.assignment) := by
  rw [logged_of_forked he h]
  simp only [Model.refutes_falsum]
  exact (Model.extensions_perm (splitOrder_perm knowledge.symbols config)
    (nodup_splitOrder _ _) .empty).filter _

/-- The trace is exact. As a multiset, it has the first counter-model of each block that has one,
with a value for each symbol of both sentences and for no other name. So it is empty just if the
query is entailed, and an examination in sequence leaves one valuation at most; and where all
splits are forked, to ask for the sentence that is never true leaves the models of the knowledge. The
symbols are those of either sentence, and no split is forked in sequence, in parallel as many as the
configuration says. -/
theorem examine_logged (knowledge query : Sentence) (config : Config) :
    (∀ name, name ∈ jointSymbols knowledge query ↔
      knowledge.Mentions name ∨ query.Mentions name) ∧
    (config.forkDepth = if config.parallel.value then config.parallelDepth.value else 0) ∧
    (∃ e, examine knowledge query config = .ok e ∧
      (e.logged : Multiset Model) = ((blocks knowledge query config).filterMap
        fun block => block.find? (·.refutes knowledge query) : List Model) ∧
      (∀ m ∈ e.logged, m.domain = jointSymbols knowledge query) ∧
      (e.entailed = true ↔ e.logged = []) ∧
      (config.forkDepth = 0 → e.logged.length ≤ 1)) ∧
    ∃ e ms, examine knowledge .falsum config = .ok e ∧ models knowledge = .ok ms ∧
      (knowledge.symbols.size ≤ config.forkDepth → (e.logged : Multiset Model) = ms) := by
  refine ⟨fun _ => mem_jointSymbols, rfl, ?_, ?_⟩
  · have he := examine_eq knowledge query config
    refine ⟨_, he, congrArg _ (logged_of_examine he), fun m => domain_of_mem_logged he,
      (logged_eq_nil_iff he).symm, fun hdepth => ?_⟩
    have hlength := length_logged_le he
    rwa [forkedSplits, hdepth, Nat.zero_min, Nat.pow_zero] at hlength
  · have he := examine_eq knowledge .falsum config
    refine ⟨_, _, he, models_eq knowledge, fun hdepth => ?_⟩
    rw [← length_splitOrder knowledge.symbols config] at hdepth
    exact Multiset.coe_eq_coe.2 (logged_perm_models he hdepth)

end Consequence
