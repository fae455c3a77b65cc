import Consequence.Proofs.Connectives
import Consequence.Proofs.Truth

/-!
# The symbols are what evaluation reads from

The names of a sentence are collected by one walk over the tree, and its value is found by
another. The first goes everywhere, handing a set on from part to part. The second goes from left
to right and leaves a sentence early where it can. An enumeration of valuations trusts that the
first walk has met every name that the second one may come to ask for, whatever the values are.

That is `evaluate_congr`: two valuations that say the same of the names that a sentence mentions,
where saying nothing counts as well, lead to the same result, and if it is an error it is about the
same name. The truth of a sentence is no help here, as an error has no truth to compare it with. The
proof goes by the connectives: each makes its result out of the results of the parts.

What is collected does not depend on the way either. A set that is handed to a sentence comes back
with the names at the leaves of the sentence and no others (`mem_extendSymbols`), so the children
can be gone through in any order, each for itself.
-/

namespace Consequence

/-! ## Unions of sets of names -/

namespace NameSet

theorem mem_foldl_insert {n : String} (names : List String) : ∀ s : NameSet,
    n ∈ names.foldl insert s ↔ n ∈ s ∨ n ∈ names := by
  induction names with
  | nil => simp
  | cons name names ih =>
      intro s
      rw [List.foldl_cons, ih, mem_insert, List.mem_cons, or_assoc, or_left_comm]

def union (s t : NameSet) : NameSet :=
  t.toList.foldl insert s

instance : Union NameSet := ⟨union⟩

@[simp] theorem mem_union {s t : NameSet} {n : String} : n ∈ s ∪ t ↔ n ∈ s ∨ n ∈ t :=
  mem_foldl_insert t.toList s

end NameSet

namespace Sentence

/-! ## What is collected -/

section

variable {p : Sentence}

/-- The names of some sentences, put into a set sentence by sentence. -/
def unionSymbols (parts : List Sentence) (names : NameSet) : NameSet :=
  parts.foldl (fun names p => names ∪ p.symbols) names

theorem mem_unionSymbols {n : String} (parts : List Sentence) : ∀ names : NameSet,
    n ∈ unionSymbols parts names ↔ n ∈ names ∨ ∃ p ∈ parts, p.Mentions n := by
  induction parts with
  | nil => simp [unionSymbols]
  | cons p parts ih =>
      intro names
      rw [unionSymbols, List.foldl_cons, ← unionSymbols, ih, NameSet.mem_union, mem_symbols,
        or_assoc]
      simp

/-- A sentence that is no symbol has the names of its children, and it does not matter in which
order these are gone through. -/
theorem extendSymbols_eq_unionSymbols (hp : ∀ s, p ≠ .symbol s) {parts : List Sentence}
    (h : parts.Perm p.children) (names : NameSet) :
    p.extendSymbols names = unionSymbols parts names := by
  refine NameSet.ext_mem fun n => ?_
  rw [mem_extendSymbols, mem_unionSymbols, mentions_iff_of_children hp]
  simp only [h.mem_iff]

/-! ## What is read -/

/-- The result of a sentence depends on what the valuation says of the names that the sentence
mentions, and on nothing else. -/
theorem evaluate_congr {v v' : Valuation} (h : ∀ n, p.Mentions n → v n = v' n) :
    p.evaluate v = p.evaluate v' := by
  induction p with
  | symbol s => rw [evaluate, evaluate, h s.name (mentions_symbol.2 rfl)]
  | neg p ih =>
      have hp := ih fun n hn => h n (mentions_neg.2 hn)
      rw [evaluate_neg, evaluate_neg, hp]
  | conj parts ih =>
      have hparts : parts.map (·.evaluate v) = parts.map (·.evaluate v') :=
        List.map_congr_left fun p hp => ih p hp fun n hn => h n (mentions_conj.2 ⟨p, hp, hn⟩)
      rw [evaluate_conj, evaluate_conj, hparts]
  | disj parts ih =>
      have hparts : parts.map (·.evaluate v) = parts.map (·.evaluate v') :=
        List.map_congr_left fun p hp => ih p hp fun n hn => h n (mentions_disj.2 ⟨p, hp, hn⟩)
      rw [evaluate_disj, evaluate_disj, hparts]
  | imp p q ihp ihq =>
      have hp := ihp fun n hn => h n (mentions_imp.2 (.inl hn))
      have hq := ihq fun n hn => h n (mentions_imp.2 (.inr hn))
      rw [evaluate_imp, evaluate_imp, hp, hq]
  | iff p q ihp ihq =>
      have hp := ihp fun n hn => h n (mentions_iff.2 (.inl hn))
      have hq := ihq fun n hn => h n (mentions_iff.2 (.inr hn))
      rw [evaluate, evaluate, hp, hq]

end

/-- The symbols of a sentence are exact, and they suffice. Put into a set, they add the names that
stand at a leaf of the sentence and no others. Those of a sentence that is no symbol are those of
its children together, in whatever order. And two valuations that agree on them, each name with the
same value in both or without one in both, lead to the same result, be it a value or an error. -/
theorem symbols_exact (p : Sentence) :
    (∀ (names : NameSet) (n : String), n ∈ p.extendSymbols names ↔ n ∈ names ∨ p.Mentions n) ∧
    (∀ names : NameSet, p.extendSymbols names = names ∪ p.symbols) ∧
    ((∀ s, p ≠ .symbol s) → ∀ parts : List Sentence, parts.Perm p.children →
      ∀ names : NameSet, p.extendSymbols names = unionSymbols parts names) ∧
    ∀ v v' : Valuation, (∀ n ∈ p.symbols, v n = v' n) → p.evaluate v = p.evaluate v' := by
  refine ⟨fun names n => mem_extendSymbols names, fun names => NameSet.ext_mem fun n => ?_,
    fun hp parts hparts => extendSymbols_eq_unionSymbols hp hparts, fun v v' h => ?_⟩
  · rw [mem_extendSymbols, NameSet.mem_union, mem_symbols]
  · exact evaluate_congr fun n hn => h n (mem_symbols.2 hn)

/-- No valuation brings evaluation as far as the second part, and its name counts all the same. -/
example : (conj [falsum, .symbol ⟨"q", by decide⟩]).symbols.toList = ["q"] :=
  rfl

end Sentence

end Consequence
