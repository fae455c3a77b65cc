import Consequence.Proofs.Connectives
import Consequence.Proofs.Partial
import Consequence.Proofs.Work

/-!
# Forking does not show

A forked split has two answers to make one of, and either may be an error. In sequence there is
often no second answer at all. That both ways agree is a matter of which answer counts: the first
one unless it is yes, and only then the second. Read so, the answers of a split are put together as
the values of a conjunction are (`readOn false`), whether the second one was looked up or was there
already. So by the associativity of that reading the answer of a search is what comes of its leaves,
read from the front up to the first that is not yes (`answer_run`), and this says nothing of forks.

Nothing is asked of the search. The names to split on may repeat each other or be valued already,
and they may leave out names that the sentences mention; then leaves come to errors, and which of
these errors is the answer does not depend on the forks either.

The answers agree, the work does not. Where a search in sequence stops at the true side of a split
(`StopsAtTrue`) a forked one has searched the false side in vain, and an error found there is
dropped. In every other case it is the answer.
-/

namespace Consequence

/-- An error that ends a row of results is one of them. -/
theorem mem_of_readAll_eq_error {stop : Bool} {results : List (Except Error Bool)} {e : Error}
    (h : readAll stop results = .error e) : .error e ∈ results := by
  induction results with
  | nil => cases h
  | cons r results ih =>
      have hcons : readOn stop r (readAll stop results) = .error e := h
      cases r with
      | error e' =>
          cases hcons
          exact List.mem_cons_self
      | ok value =>
          by_cases hvalue : value = stop
          · subst hvalue
            cases value <;> cases hcons
          · rw [Bool.eq_not_of_ne hvalue, ok_not_readOn] at hcons
            exact List.mem_cons_of_mem _ (ih hcons)

namespace Search

/-! ## One split -/

theorem answer_both (r s : Search) : (r.both s).answer = readOn false r.answer s.answer := by
  rcases r with ⟨e | _ | _, leaves, counterModels⟩ <;> rfl

/-- The answer is the same as if the second side had been searched in any case. -/
theorem answer_andThen (r : Search) (s : Unit → Search) :
    (r.andThen s).answer = readOn false r.answer (s ()).answer := by
  rw [← answer_both]
  by_cases hr : r.answer = .ok true
  · rw [andThen_of_holds hr]
  · rw [andThen_of_not_holds hr, both_of_not_holds hr]

/-! ## All splits -/

section

variable {knowledge query : Sentence}

/-- At a leaf it is asked whether the knowledge implies the query. -/
theorem answer_leaf (m : Model) :
    (leaf knowledge query m).answer = (Sentence.imp knowledge query).evaluate m.value? := by
  rw [leaf, Sentence.evaluate]
  rcases knowledge.evaluate m.value? with e | _ | _
  · rfl
  · rfl
  · rcases query.evaluate m.value? with e | _ | _ <;> rfl

/-- Forked or not, a search answers with the first leaf, in the order of the split, at which the
implication has not come out true; and with yes if there is none. -/
theorem answer_run (forks : Nat) (order : List String) (m : Model) :
    (run knowledge query forks order m).answer = readAll false
      ((m.extensions order).map fun m' => (Sentence.imp knowledge query).evaluate m'.value?) := by
  induction forks, order, m using run.induct with
  | case1 forks m =>
      rw [run, answer_leaf]
      exact (readOn_ok_not false _).symm
  | case2 name order m htrue hfalse =>
      rw [run, answer_andThen, htrue, hfalse, ← readAll_append, ← List.map_append]
      rfl
  | case3 forks name order m htrue hfalse =>
      rw [run, answer_both, htrue, hfalse, ← readAll_append, ← List.map_append]
      rfl

/-- The only error is that a name is missing, one that is neither valued nor split on. -/
theorem exists_unbound_of_run {forks : Nat} {order : List String} {m : Model} {e : Error}
    (h : (run knowledge query forks order m).answer = .error e) :
    ∃ n, e = .unbound n ∧ (knowledge.Mentions n ∨ query.Mentions n) ∧ n ∉ order ∧
      m.value? n = none := by
  rw [answer_run] at h
  obtain ⟨m', hm', hevaluate⟩ := List.mem_map.1 (mem_of_readAll_eq_error h)
  obtain ⟨n, ⟨hmentions, hnone⟩, he⟩ := Sentence.exists_unbound_of_evaluate hevaluate
  obtain ⟨hin, hout⟩ := Model.mem_extensions.1 hm'
  have hn : n ∉ order := by
    intro hn
    have hsome := hin n hn
    rw [hnone] at hsome
    cases hsome
  exact ⟨n, he, Sentence.mentions_imp.1 hmentions, hn, (hout n hn).symm.trans hnone⟩

end

/-! ## Where a search in sequence stops -/

/-- In sequence, the search below `m` is over with the true side of its first split: the same
answer, the same leaves, the same counter-models. -/
def StopsAtTrue (knowledge query : Sentence) (name : String) (order : List String) (m : Model) :
    Prop :=
  run knowledge query 0 (name :: order) m = run knowledge query 0 order (m.insert name true)

theorem stopsAtTrue_iff {knowledge query : Sentence} {name : String} {order : List String}
    {m : Model} : StopsAtTrue knowledge query name order m ↔
      (run knowledge query 0 order (m.insert name true)).answer ≠ .ok true := by
  rw [StopsAtTrue, run]
  constructor
  · intro hstops htrue
    -- The false side would have had a leaf at least.
    have hleaves := congrArg leaves hstops
    have hleast := two_pow_le_leaves_run knowledge query 0 order (m.insert name false)
    rw [andThen_of_holds htrue, leaves_both] at hleaves
    rw [Nat.zero_min, Nat.pow_zero] at hleast
    omega
  · exact fun htrue => andThen_of_not_holds htrue _

/-- Whether an error on the second side is dropped depends on the first side alone. -/
theorem answer_both_eq_iff {r s : Search} {e : Error} (h : s.answer = .error e) :
    (r.both s).answer = r.answer ↔ r.answer ≠ .ok true := by
  constructor
  · intro hdropped hr
    rw [both_of_holds hr, h, hr] at hdropped
    cases hdropped
  · exact fun hr => both_of_not_holds hr s

/-- How many splits are forked makes no difference to the answer of a search, whatever it starts
from: no to the yes or no, and none to the name that is missing, which is a name that neither is
split on nor has a value. In particular, an error on the false side of a forked split is dropped,
and the answer of the true side taken, just if a search in sequence stops at the true side; if it
does not, the error is the answer. -/
theorem forks_invisible (knowledge query : Sentence) (forks : Nat) (order : List String)
    (m : Model) :
    (run knowledge query forks order m).answer = (run knowledge query 0 order m).answer ∧
    (∀ e, (run knowledge query forks order m).answer = .error e →
      ∃ n, e = .unbound n ∧ (knowledge.Mentions n ∨ query.Mentions n) ∧ n ∉ order ∧
        m.value? n = none) ∧
    ∀ (name : String) (e : Error),
      (run knowledge query forks order (m.insert name false)).answer = .error e →
      ((run knowledge query (forks + 1) (name :: order) m).answer =
          (run knowledge query forks order (m.insert name true)).answer ↔
        StopsAtTrue knowledge query name order m) ∧
      (¬ StopsAtTrue knowledge query name order m →
        (run knowledge query (forks + 1) (name :: order) m).answer = .error e) := by
  have hforks : ∀ order m, (run knowledge query forks order m).answer =
      (run knowledge query 0 order m).answer := fun order m => by rw [answer_run, answer_run]
  refine ⟨hforks order m, fun e => exists_unbound_of_run, fun name e herror => ?_⟩
  rw [stopsAtTrue_iff, ← hforks, run, not_not]
  exact ⟨answer_both_eq_iff herror, fun htrue => (both_of_holds htrue _).trans herror⟩

/-- The name `q` is missing and is read where `p` is false. The true side settles the first
question, and only holds for the second one. -/
example :
    (run (.disj [.symbol ⟨"p", by decide⟩, .symbol ⟨"q", by decide⟩])
      (.neg (.symbol ⟨"p", by decide⟩)) 1 ["p"] .empty).answer = .ok false ∧
    (run (.disj [.symbol ⟨"p", by decide⟩, .symbol ⟨"q", by decide⟩])
      (.symbol ⟨"p", by decide⟩) 1 ["p"] .empty).answer = .error (.unbound "q") :=
  ⟨rfl, rfl⟩

end Search

end Consequence
