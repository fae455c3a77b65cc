import Consequence.Proofs.Examination

/-!
# What forking costs

Where a split is forked both of its sides are searched, whatever the first one answers. In
sequence the second side is searched only if the first one holds. So to fork one more split never
saves a valuation, and how many it adds depends on where the counter-models are; the bounds do
not. Every way through the forked splits ends in a valuation at least, and below the last forked
split there is no more to search than all valuations of what is left.

Two searches of one question at different depths are compared split by split. Nothing is asked of
the sentences for that, or of the model that the search starts from: the count is of leaves
visited, and a leaf is visited also where the question has no answer. An answer that holds is the
one case in which depth does not matter, for then no side of a split was left out.
-/

namespace Consequence

namespace Search

/-! ## One split -/

section

variable {r : Search} {s : Unit → Search}

theorem leaves_both (r s : Search) : (r.both s).leaves = r.leaves + s.leaves :=
  rfl

theorem both_holds_iff {r s : Search} :
    (r.both s).answer = .ok true ↔ r.answer = .ok true ∧ s.answer = .ok true := by
  by_cases hr : r.answer = .ok true
  · rw [both_of_holds hr, and_iff_right hr]
  · rw [both_of_not_holds hr]
    exact ⟨fun h => absurd h hr, fun h => absurd h.1 hr⟩

theorem leaves_le_leaves_andThen (r : Search) (s : Unit → Search) :
    r.leaves ≤ (r.andThen s).leaves := by
  by_cases hr : r.answer = .ok true
  · rw [andThen_of_holds hr]
    exact Nat.le_add_right ..
  · rw [andThen_of_not_holds hr]

theorem leaves_andThen_le (r : Search) (s : Unit → Search) :
    (r.andThen s).leaves ≤ r.leaves + (s ()).leaves := by
  by_cases hr : r.answer = .ok true
  · rw [andThen_of_holds hr, leaves_both]
  · rw [andThen_of_not_holds hr]
    exact Nat.le_add_right ..

/-- A split that holds was searched on both sides. -/
theorem andThen_eq_both_of_holds (h : (r.andThen s).answer = .ok true) :
    r.andThen s = r.both (s ()) := by
  by_cases hr : r.answer = .ok true
  · exact andThen_of_holds hr s
  · rw [andThen_of_not_holds hr] at h
    exact absurd h hr

end

/-! ## All splits -/

section

variable (knowledge query : Sentence)

theorem leaves_leaf (m : Model) : (leaf knowledge query m).leaves = 1 := by
  unfold leaf
  split
  · rfl
  · rfl
  · split <;> rfl

/-- The more splits are forked, the more leaves are visited. -/
theorem leaves_run_mono {forks more : Nat} (h : forks ≤ more) (order : List String) (m : Model) :
    (run knowledge query forks order m).leaves ≤ (run knowledge query more order m).leaves := by
  induction forks, order, m using run.induct generalizing more with
  | case1 forks m => rw [run, run]
  | case2 name order m htrue hfalse =>
      cases more with
      | zero => exact Nat.le_refl _
      | succ more =>
          -- The split is forked in the one search and made in sequence in the other.
          have htrue' := htrue (Nat.zero_le more)
          have hfalse' := hfalse (Nat.zero_le more)
          rw [run, run, leaves_both]
          exact Nat.le_trans (leaves_andThen_le ..) (by omega)
  | case3 forks name order m htrue hfalse =>
      obtain ⟨more, rfl⟩ : ∃ n, more = n + 1 := ⟨more - 1, by omega⟩
      have htrue' := htrue (Nat.le_of_succ_le_succ h)
      have hfalse' := hfalse (Nat.le_of_succ_le_succ h)
      rw [run, run, leaves_both, leaves_both]
      omega

/-- Each way through the forked splits comes to a leaf. -/
theorem two_pow_le_leaves_run (forks : Nat) (order : List String) (m : Model) :
    2 ^ min forks order.length ≤ (run knowledge query forks order m).leaves := by
  induction forks, order, m using run.induct with
  | case1 forks m => rw [run, leaves_leaf, List.length_nil, Nat.min_zero, Nat.pow_zero]
  | case2 name order m htrue _ =>
      rw [Nat.zero_min] at htrue ⊢
      rw [run]
      exact Nat.le_trans htrue (leaves_le_leaves_andThen ..)
  | case3 forks name order m htrue hfalse =>
      rw [run, leaves_both, List.length_cons, Nat.succ_min_succ, Nat.pow_succ]
      omega

theorem leaves_run_le (forks : Nat) (order : List String) (m : Model) :
    (run knowledge query forks order m).leaves ≤ 2 ^ order.length := by
  induction forks, order, m using run.induct with
  | case1 forks m => rw [run, leaves_leaf, List.length_nil, Nat.pow_zero]
  | case2 name order m htrue hfalse =>
      rw [run, List.length_cons, Nat.pow_succ]
      exact Nat.le_trans (leaves_andThen_le ..) (by omega)
  | case3 forks name order m htrue hfalse =>
      rw [run, leaves_both, List.length_cons, Nat.pow_succ]
      omega

variable {knowledge query}

/-- A search that holds has left no leaf out, in sequence or forked. -/
theorem leaves_run_of_holds {forks : Nat} {order : List String} {m : Model}
    (h : (run knowledge query forks order m).answer = .ok true) :
    (run knowledge query forks order m).leaves = 2 ^ order.length := by
  induction forks, order, m using run.induct with
  | case1 forks m => rw [run, leaves_leaf, List.length_nil, Nat.pow_zero]
  | case2 name order m htrue hfalse =>
      rw [run] at h ⊢
      rw [andThen_eq_both_of_holds h, both_holds_iff] at h
      rw [andThen_of_holds h.1, leaves_both, htrue h.1, hfalse h.2, List.length_cons,
        Nat.pow_succ, Nat.mul_two]
  | case3 forks name order m htrue hfalse =>
      rw [run, both_holds_iff] at h
      rw [run, leaves_both, htrue h.1, hfalse h.2, List.length_cons, Nat.pow_succ, Nat.mul_two]

end

end Search

/-! ## From the top -/

/-- The order of splits comes from the names and from two of the settings. -/
theorem splitOrder_congr {config config' : Config} (names : NameSet)
    (horder : config'.symbolOrder.value = config.symbolOrder.value)
    (hseed : config'.seed.value = config.seed.value) :
    splitOrder names config' = splitOrder names config := by
  rw [splitOrder, splitOrder, horder, hseed]

section

variable {knowledge query : Sentence} {config : Config} {e : Examination}

/-- An examination is the search along the split order, from a model without values. -/
theorem search_of_examine (h : examine knowledge query config = .ok e) :
    (Search.run knowledge query config.forkDepth
        (splitOrder (jointSymbols knowledge query) config) .empty).answer = .ok e.entailed ∧
      (Search.run knowledge query config.forkDepth
        (splitOrder (jointSymbols knowledge query) config) .empty).leaves = e.leaves := by
  rw [examine] at h
  cases hanswer : (Search.run knowledge query config.forkDepth
      (splitOrder (jointSymbols knowledge query) config) .empty).answer with
  | error fault =>
      rw [hanswer] at h
      cases h
  | ok entailed =>
      rw [hanswer] at h
      cases h
      exact ⟨rfl, rfl⟩

end

/-- Work grows with the depth of forking, within bounds. With `n` symbols, an examination takes a
valuation at least for each way through the forked splits, and never more than all `2 ^ n`; it
takes all of them where all splits are forked, and where the query is entailed. With the same
split order, no configuration that forks more splits takes less, and none has another answer. The
symbols are those of either sentence; a configuration in sequence forks no split, and one in parallel
as many as it says. -/
theorem examine_leaves_mono (knowledge query : Sentence) (config : Config) :
    (∀ name, name ∈ jointSymbols knowledge query ↔
      knowledge.Mentions name ∨ query.Mentions name) ∧
    (∀ c : Config, c.forkDepth = if c.parallel.value then c.parallelDepth.value else 0) ∧ ∃ e,
    examine knowledge query config = .ok e ∧
    2 ^ min config.forkDepth (jointSymbols knowledge query).size ≤ e.leaves ∧
    e.leaves ≤ 2 ^ (jointSymbols knowledge query).size ∧
    ((jointSymbols knowledge query).size ≤ config.forkDepth →
      e.leaves = 2 ^ (jointSymbols knowledge query).size) ∧
    (e.entailed = true → e.leaves = 2 ^ (jointSymbols knowledge query).size) ∧
    ∀ config' : Config, config'.symbolOrder.value = config.symbolOrder.value →
      config'.seed.value = config.seed.value → ∃ e',
        examine knowledge query config' = .ok e' ∧ e'.entailed = e.entailed ∧
        (config.forkDepth ≤ config'.forkDepth → e.leaves ≤ e'.leaves) := by
  refine ⟨fun _ => mem_jointSymbols, fun _ => rfl, ?_⟩
  have he := examine_eq knowledge query config
  obtain ⟨hanswer, hleaves⟩ := search_of_examine he
  have hleast := Search.two_pow_le_leaves_run knowledge query config.forkDepth
    (splitOrder (jointSymbols knowledge query) config) .empty
  have hmost := Search.leaves_run_le knowledge query config.forkDepth
    (splitOrder (jointSymbols knowledge query) config) .empty
  rw [hleaves, length_splitOrder] at hleast hmost
  refine ⟨_, he, hleast, hmost, fun hdepth => ?_, fun hentailed => ?_,
    fun config' horder hseed => ?_⟩
  · -- Then both bounds are the number of all valuations.
    rw [Nat.min_eq_right hdepth] at hleast
    exact Nat.le_antisymm hmost hleast
  · rw [← hleaves, Search.leaves_run_of_holds (hanswer.trans (congrArg Except.ok hentailed)),
      length_splitOrder]
  · have he' := examine_eq knowledge query config'
    refine ⟨_, he', ?_, fun hdepth => ?_⟩
    · exact Except.ok.inj ((entails_of_examine he').symm.trans (entails_of_examine he))
    · rw [← hleaves, ← (search_of_examine he').2, splitOrder_congr _ horder hseed]
      exact Search.leaves_run_mono knowledge query hdepth _ _

end Consequence
