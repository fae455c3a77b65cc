import Consequence.Examination
import Consequence.Proofs.Enumeration

/-!
# What an examination finds, and what it takes

A search is written as a recursion over names, sequential below some depth and forked above it.
What it amounts to is simpler. Results of searches form a monoid: `both` puts two of them
together and `nothing` is its unit. Searched in sequence, the valuations below a model are
scanned from the front of their list up to the first that is not passed (`run_zero`); forked,
the list is cut into blocks of one size, every block is scanned, and the results are put
together (`run_eq_gather`). Neither statement asks anything of the sentences or the model, so
both hold of searches that meet a name without a value.

From the top no search meets one. The split order has every name that the sentences mention, so
at each leaf both sentences have their truth, and `examine_eq` reads the whole outcome of an
examination off the list of valuations. The two main statements are about two of its parts.
`examine_entailed_iff` is about the answer: it is given, and it says whether the query is a
consequence of the knowledge under all assignments. `examine_leaves_eq` is about the work: in
each block, the place of the first counter-model, or the size of a block that has none.
-/

namespace Consequence

open Sentence

/-! ## Putting searches together -/

namespace Search

/-- The search of no valuation at all. -/
def nothing : Search := ⟨.ok true, 0, []⟩

/-- The searches of some blocks, put together in order. -/
def gather : List Search → Search
  | [] => nothing
  | s :: searches => s.both (gather searches)

theorem both_of_holds {r : Search} (h : r.answer = .ok true) (s : Search) :
    (r.both s).answer = s.answer := by
  unfold both
  rw [h]

theorem both_of_not_holds {r : Search} (h : r.answer ≠ .ok true) (s : Search) :
    (r.both s).answer = r.answer := by
  obtain ⟨answer, leaves, counterModels⟩ := r
  cases answer with
  | error e => rfl
  | ok value =>
      cases value with
      | false => rfl
      | true => exact absurd rfl h

theorem both_assoc (r s t : Search) : (r.both s).both t = r.both (s.both t) := by
  have hanswer : ((r.both s).both t).answer = (r.both (s.both t)).answer := by
    by_cases hr : r.answer = .ok true
    · rw [both_of_holds hr]
      have hrs : (r.both s).answer = s.answer := both_of_holds hr s
      by_cases hs : s.answer = .ok true
      · rw [both_of_holds hs, both_of_holds (hrs.trans hs)]
      · rw [both_of_not_holds hs, both_of_not_holds (hrs ▸ hs), hrs]
    · have hrs : (r.both s).answer = r.answer := both_of_not_holds hr s
      rw [both_of_not_holds hr, both_of_not_holds (hrs ▸ hr), hrs]
  calc (r.both s).both t
      = ⟨((r.both s).both t).answer, r.leaves + s.leaves + t.leaves,
          r.counterModels ++ s.counterModels ++ t.counterModels⟩ := rfl
    _ = ⟨(r.both (s.both t)).answer, r.leaves + (s.leaves + t.leaves),
          r.counterModels ++ (s.counterModels ++ t.counterModels)⟩ := by
        rw [hanswer, Nat.add_assoc, List.append_assoc]

theorem nothing_both (s : Search) : nothing.both s = s := by
  simp [nothing, both]

theorem both_nothing (s : Search) : s.both nothing = s := by
  have hanswer : (s.both nothing).answer = s.answer := by
    by_cases h : s.answer = .ok true
    · rw [both_of_holds h, h]
      rfl
    · exact both_of_not_holds h _
  calc s.both nothing
      = ⟨(s.both nothing).answer, s.leaves + 0, s.counterModels ++ []⟩ := rfl
    _ = s := by rw [hanswer, Nat.add_zero, List.append_nil]

theorem gather_append (searches more : List Search) :
    gather (searches ++ more) = (gather searches).both (gather more) := by
  induction searches with
  | nil => exact (nothing_both _).symm
  | cons s searches ih => rw [List.cons_append, gather, gather, ih, both_assoc]

theorem andThen_of_holds {r : Search} (h : r.answer = .ok true) (s : Unit → Search) :
    r.andThen s = r.both (s ()) := by
  unfold andThen
  rw [h]

theorem andThen_of_not_holds {r : Search} (h : r.answer ≠ .ok true) (s : Unit → Search) :
    r.andThen s = r := by
  unfold andThen
  split
  · next heq => exact absurd heq h
  · rfl

theorem andThen_nothing (s : Search) : (s.andThen fun _ => nothing) = s := by
  by_cases h : s.answer = .ok true
  · rw [andThen_of_holds h, both_nothing]
  · exact andThen_of_not_holds h _

theorem nothing_andThen (s : Unit → Search) : nothing.andThen s = s () :=
  nothing_both (s ())

/-- What comes after a search that did not hold is not searched, however it is bracketed. -/
theorem andThen_assoc (r : Search) (s t : Unit → Search) :
    (r.andThen s).andThen t = r.andThen fun _ => (s ()).andThen t := by
  by_cases hr : r.answer = .ok true
  · rw [andThen_of_holds hr, andThen_of_holds hr]
    have hboth : (r.both (s ())).answer = (s ()).answer := both_of_holds hr _
    by_cases hs : (s ()).answer = .ok true
    · rw [andThen_of_holds (hboth.trans hs), andThen_of_holds hs, both_assoc]
    · rw [andThen_of_not_holds (hboth ▸ hs), andThen_of_not_holds hs]
  · rw [andThen_of_not_holds hr, andThen_of_not_holds hr, andThen_of_not_holds hr]

/-! ## A search as a scan of blocks -/

section

variable (knowledge query : Sentence)

/-- Examines models one after the other, up to the first at which the question fails. -/
def scan : List Model → Search
  | [] => nothing
  | m :: models => (leaf knowledge query m).andThen fun _ => scan models

theorem scan_append (models more : List Model) :
    scan knowledge query (models ++ more) =
      (scan knowledge query models).andThen fun _ => scan knowledge query more := by
  induction models with
  | nil => exact (nothing_andThen fun _ => scan knowledge query more).symm
  | cons m models ih => rw [List.cons_append, scan, scan, ih, andThen_assoc]

theorem run_nil (forks : Nat) (m : Model) :
    run knowledge query forks [] m = scan knowledge query [m] := by
  rw [run, scan, scan, andThen_nothing]

/-- In sequence, the valuations below a model are scanned in the order of their list. -/
theorem run_zero (order : List String) : ∀ m : Model,
    run knowledge query 0 order m = scan knowledge query (m.extensions order) := by
  induction order with
  | nil => exact fun m => run_nil knowledge query 0 m
  | cons name order ih =>
      intro m
      rw [run, ih, ih, Model.extensions, scan_append]

theorem gather_singleton (s : Search) : gather [s] = s :=
  both_nothing s

/-- Forked, they are scanned block by block. There are two blocks for every split that is
forked, and so there is one for each way to go through the forked splits. -/
theorem run_eq_gather (order : List String) : ∀ (forks : Nat) (m : Model),
    run knowledge query forks order m =
      gather ((cut (2 ^ (order.length - min forks order.length)) (2 ^ min forks order.length)
        (m.extensions order)).map (scan knowledge query)) := by
  induction order with
  | nil =>
      intro forks m
      rw [run_nil, List.length_nil, Nat.min_zero]
      exact (gather_singleton _).symm
  | cons name order ih =>
      intro forks m
      cases forks with
      | zero =>
          have hlength := Model.length_extensions (name :: order) m
          rw [run_zero, Nat.zero_min, Nat.sub_zero, ← hlength, Nat.pow_zero, cut, cut,
            List.take_length, List.map_singleton, gather_singleton]
      | succ forks =>
          have hdepth : min forks order.length ≤ order.length := Nat.min_le_right ..
          have hhalf : (Model.extensions order (m.insert name true)).length =
              2 ^ min forks order.length * 2 ^ (order.length - min forks order.length) := by
            rw [Model.length_extensions, ← Nat.pow_add, Nat.add_sub_cancel' hdepth]
          rw [run, ih, ih, List.length_cons, Nat.succ_min_succ, Nat.succ_sub_succ,
            Nat.pow_succ, Nat.mul_two, Model.extensions, cut_append _ _ hhalf, List.map_append,
            gather_append]

end

end Search

/-! ## Models that give every name its value -/

/-- The knowledge is true of the model and the query is false. -/
def Model.refutes (m : Model) (knowledge query : Sentence) : Bool :=
  knowledge.truth m.assignment && !query.truth m.assignment

/-- Every name that either sentence mentions has a value in the model. -/
def Model.Settles (m : Model) (knowledge query : Sentence) : Prop :=
  ∀ n, knowledge.Mentions n ∨ query.Mentions n → (m.value? n).isSome

/-- How many models of a block are examined: those up to the first counter-model, or all of them
if there is none. -/
def examined (knowledge query : Sentence) (block : List Model) : Nat :=
  match block.findIdx? (·.refutes knowledge query) with
  | some index => index + 1
  | none => block.length

section

variable {knowledge query : Sentence}

theorem Model.Settles.evaluate_knowledge {m : Model} (h : m.Settles knowledge query) :
    knowledge.evaluate m.value? = .ok (knowledge.truth m.assignment) :=
  Model.evaluate_value? fun n hn => h n (.inl hn)

theorem Model.Settles.evaluate_query {m : Model} (h : m.Settles knowledge query) :
    query.evaluate m.value? = .ok (query.truth m.assignment) :=
  Model.evaluate_value? fun n hn => h n (.inr hn)

theorem examined_cons (m : Model) (models : List Model) :
    examined knowledge query (m :: models) =
      if m.refutes knowledge query then 1 else examined knowledge query models + 1 := by
  unfold examined
  rw [List.findIdx?_cons]
  by_cases hm : m.refutes knowledge query
  · rw [if_pos hm, if_pos hm]
  · rw [if_neg hm, if_neg hm]
    cases models.findIdx? (·.refutes knowledge query) <;> rfl

namespace Search

theorem leaf_of_settles {m : Model} (h : m.Settles knowledge query) :
    leaf knowledge query m =
      if m.refutes knowledge query then ⟨.ok false, 1, [m]⟩ else ⟨.ok true, 1, []⟩ := by
  rw [leaf, h.evaluate_knowledge, h.evaluate_query, Model.refutes]
  cases knowledge.truth m.assignment with
  | false => rfl
  | true => cases query.truth m.assignment <;> rfl

/-- A scan of models that settle the question stops at the first counter-model and reports it. -/
theorem scan_of_settles {models : List Model} (h : ∀ m ∈ models, m.Settles knowledge query) :
    scan knowledge query models =
      ⟨.ok (!models.any (·.refutes knowledge query)), examined knowledge query models,
        (models.find? (·.refutes knowledge query)).toList⟩ := by
  induction models with
  | nil => rfl
  | cons m models ih =>
      rw [scan, ih fun m' hm' => h m' (List.mem_cons_of_mem m hm'),
        leaf_of_settles (h m List.mem_cons_self), examined_cons, List.any_cons, List.find?_cons]
      cases m.refutes knowledge query with
      | true => rfl
      | false =>
          simp only [Bool.false_eq_true, if_false, andThen, both, List.nil_append,
            Bool.false_or, Nat.add_comm 1]

theorem gather_of_settles {blocks : List (List Model)}
    (h : ∀ block ∈ blocks, ∀ m ∈ block, m.Settles knowledge query) :
    gather (blocks.map (scan knowledge query)) =
      ⟨.ok (!blocks.flatten.any (·.refutes knowledge query)),
        (blocks.map (examined knowledge query)).sum,
        blocks.flatMap fun block => (block.find? (·.refutes knowledge query)).toList⟩ := by
  induction blocks with
  | nil => rfl
  | cons block blocks ih =>
      rw [List.map_cons, gather, ih fun b hb => h b (List.mem_cons_of_mem block hb),
        scan_of_settles (h block List.mem_cons_self), List.flatten_cons, List.any_append,
        List.map_cons, List.sum_cons, List.flatMap_cons]
      cases block.any (·.refutes knowledge query) <;> rfl

end Search

end

/-! ## An examination from the top -/

@[simp] theorem mem_jointSymbols {knowledge query : Sentence} {n : String} :
    n ∈ jointSymbols knowledge query ↔ knowledge.Mentions n ∨ query.Mentions n := by
  rw [jointSymbols, mem_extendSymbols, mem_symbols]

section

variable (knowledge query : Sentence) (config : Config)

/-- All valuations of the symbols of both sentences, listed along the split order. -/
def valuations : List Model :=
  Model.extensions (splitOrder (jointSymbols knowledge query) config) .empty

/-- The number of splits that are forked. -/
def forkedSplits : Nat :=
  min config.forkDepth (splitOrder (jointSymbols knowledge query) config).length

/-- The number of valuations that share their values at the forked splits. -/
def blockSize : Nat :=
  2 ^ ((splitOrder (jointSymbols knowledge query) config).length
    - forkedSplits knowledge query config)

/-- The valuations in blocks, one for each way to go through the forked splits. -/
def blocks : List (List Model) :=
  cut (blockSize knowledge query config) (2 ^ forkedSplits knowledge query config)
    (valuations knowledge query config)

theorem mem_valuations {m : Model} :
    m ∈ valuations knowledge query config ↔ m.domain = jointSymbols knowledge query :=
  Model.mem_extensions_empty fun _ => mem_splitOrder

theorem length_valuations :
    (valuations knowledge query config).length =
      2 ^ forkedSplits knowledge query config * blockSize knowledge query config := by
  rw [valuations, Model.length_extensions, blockSize, ← Nat.pow_add, forkedSplits,
    Nat.add_sub_cancel' (Nat.min_le_right ..)]

theorem flatten_blocks :
    (blocks knowledge query config).flatten = valuations knowledge query config :=
  flatten_cut (length_valuations knowledge query config)

variable {knowledge query config} in
theorem settles_of_mem_valuations {m : Model} (h : m ∈ valuations knowledge query config) :
    m.Settles knowledge query := by
  intro n hn
  have hdomain := (mem_valuations knowledge query config).1 h
  rw [← Model.mem_domain, hdomain, mem_jointSymbols]
  exact hn

/-- The outcome of an examination, read off the list of valuations and its blocks. -/
theorem examine_eq :
    examine knowledge query config =
      .ok ⟨query, (splitOrder (jointSymbols knowledge query) config).length,
        !(valuations knowledge query config).any (·.refutes knowledge query),
        ((blocks knowledge query config).map (examined knowledge query)).sum,
        (blocks knowledge query config).flatMap fun block =>
          (block.find? (·.refutes knowledge query)).toList⟩ := by
  have hsettles : ∀ block ∈ blocks knowledge query config,
      ∀ m ∈ block, m.Settles knowledge query := by
    intro block hblock m hm
    have hlisted : m ∈ valuations knowledge query config := by
      rw [← flatten_blocks]
      exact List.mem_flatten.2 ⟨block, hblock, hm⟩
    exact settles_of_mem_valuations hlisted
  have hrun : Search.run knowledge query config.forkDepth
      (splitOrder (jointSymbols knowledge query) config) .empty =
      Search.gather ((blocks knowledge query config).map (Search.scan knowledge query)) :=
    Search.run_eq_gather knowledge query _ _ _
  rw [Search.gather_of_settles hsettles, flatten_blocks] at hrun
  rw [examine, hrun]
  rfl

variable {knowledge query config} in
theorem eq_of_examine {e : Examination} (h : examine knowledge query config = .ok e) :
    e = ⟨query, (splitOrder (jointSymbols knowledge query) config).length,
      !(valuations knowledge query config).any (·.refutes knowledge query),
      ((blocks knowledge query config).map (examined knowledge query)).sum,
      (blocks knowledge query config).flatMap fun block =>
        (block.find? (·.refutes knowledge query)).toList⟩ :=
  Except.ok.inj (h.symm.trans (examine_eq knowledge query config))

/-- No valuation of the symbols is a counter-model just if no assignment of all names is. -/
theorem any_refutes_eq_false_iff :
    (valuations knowledge query config).any (·.refutes knowledge query) = false ↔
      knowledge.Entails query := by
  rw [List.any_eq_false]
  constructor
  · intro h a hknowledge
    obtain ⟨m, hm, hvalues⟩ := Model.exists_mem_extensions a
      (splitOrder (jointSymbols knowledge query) config) .empty
    have hagree : ∀ n, knowledge.Mentions n ∨ query.Mentions n → a n = m.assignment n := by
      intro n hn
      have hvalue := hvalues n (mem_splitOrder.2 (mem_jointSymbols.2 hn))
      rw [Model.assignment, hvalue, Option.getD_some]
    rw [truth_congr fun n hn => hagree n (.inl hn)] at hknowledge
    rw [truth_congr fun n hn => hagree n (.inr hn)]
    have hrefutes := h m hm
    rw [Model.refutes, hknowledge, Bool.true_and] at hrefutes
    simpa using hrefutes
  · intro h m _
    have hm := h m.assignment
    rw [Model.refutes]
    cases hknowledge : knowledge.truth m.assignment with
    | false => simp
    | true => simp [hm hknowledge]

/-- The answer is the one that the default configuration gives. -/
theorem examine_eq_entails : ∃ e, examine knowledge query config = .ok e ∧
    entails knowledge query = .ok e.entailed := by
  refine ⟨_, examine_eq knowledge query config, ?_⟩
  have hany : (valuations knowledge query {}).any (·.refutes knowledge query) =
      (valuations knowledge query config).any (·.refutes knowledge query) := by
    rw [← Bool.not_inj_iff, Bool.eq_iff_iff, Bool.not_eq_true', Bool.not_eq_true',
      any_refutes_eq_false_iff, any_refutes_eq_false_iff]
  rw [entails, examine_eq, hany]
  rfl

variable {knowledge query config} in
theorem entails_of_examine {e : Examination} (h : examine knowledge query config = .ok e) :
    entails knowledge query = .ok e.entailed := by
  obtain ⟨e', he', hentails⟩ := examine_eq_entails knowledge query config
  rwa [Except.ok.inj (h.symm.trans he')]

variable {knowledge query} in
theorem entails_eq_ok_true_iff : entails knowledge query = .ok true ↔ knowledge.Entails query := by
  rw [← any_refutes_eq_false_iff knowledge query {}, entails, examine_eq]
  simp [Functor.map, Except.map]

variable {knowledge} in
/-- Knowledge is satisfiable unless it entails the sentence that is never true. -/
theorem satisfiable_eq_ok_true_iff :
    satisfiable knowledge = .ok true ↔ ¬ entails knowledge .falsum = .ok true := by
  obtain ⟨e, -, hentails⟩ := examine_eq_entails knowledge .falsum {}
  rw [satisfiable, hentails]
  cases e.entailed <;> simp [Functor.map, Except.map]

/-! ## The two main statements -/

/-- An examination always gives an answer, and the answer is yes just if the query is true under
every assignment of all names that makes the knowledge true. -/
theorem examine_entailed_iff : ∃ e, examine knowledge query config = .ok e ∧
    (e.entailed = true ↔
      ∀ a : Assignment, knowledge.truth a = true → query.truth a = true) := by
  refine ⟨_, examine_eq knowledge query config, ?_⟩
  rw [Bool.not_eq_true']
  exact any_refutes_eq_false_iff knowledge query config

/-- The work of an examination. The valuations of all symbols, in lexicographic order along the
split order, are cut into one block for each way through the forked splits; in each block the
examination gets to the first counter-model, or through the whole block if it has none. The symbols
are those of either sentence, and no split is forked in sequence, in parallel as many as the
configuration says. -/
theorem examine_leaves_eq :
    (∀ name, name ∈ jointSymbols knowledge query ↔
      knowledge.Mentions name ∨ query.Mentions name) ∧
      (config.forkDepth = if config.parallel.value then config.parallelDepth.value else 0) ∧
      (valuations knowledge query config).Pairwise
        (Model.Precedes (splitOrder (jointSymbols knowledge query) config)) ∧
      (∀ m, m ∈ valuations knowledge query config ↔ m.domain = jointSymbols knowledge query) ∧
      (blocks knowledge query config).flatten = valuations knowledge query config ∧
      (blocks knowledge query config).length = 2 ^ forkedSplits knowledge query config ∧
      (∀ block ∈ blocks knowledge query config,
        block.length = blockSize knowledge query config) ∧
      ∃ e, examine knowledge query config = .ok e ∧
        e.leaves = ((blocks knowledge query config).map fun block =>
          match block.findIdx? (·.refutes knowledge query) with
          | some index => index + 1
          | none => blockSize knowledge query config).sum := by
  have hsize : ∀ block ∈ blocks knowledge query config,
      block.length = blockSize knowledge query config := fun _ hblock =>
    length_of_mem_cut (length_valuations knowledge query config) hblock
  refine ⟨fun _ => mem_jointSymbols, rfl, Model.pairwise_extensions (nodup_splitOrder ..) .empty,
    fun _ => mem_valuations knowledge query config, flatten_blocks knowledge query config,
    length_cut .., hsize, _, examine_eq knowledge query config, ?_⟩
  refine congrArg List.sum (List.map_congr_left fun block hblock => ?_)
  rw [← hsize block hblock]
  rfl

end

end Consequence
