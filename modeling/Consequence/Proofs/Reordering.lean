import Consequence.Proofs.Partial
import Consequence.Proofs.Question

/-!
# The order of the parts

Evaluation reads the parts of a junction in their order and stops early, so on a valuation that is
silent on some names the order may decide whether there is a value at all. It never decides which
value. What makes that certain is not a comparison of the two evaluations, which read different
names and may stop at different places. It is that a value, once found, is the truth under every
assignment that agrees with the valuation (`truth_eq_of_evaluate`), and truth does not know an
order. Under any one such assignment both values are the truth of the same thing.

So all that is shown by induction over the sentence is that reordering changes neither the names
nor the truth, which makes the two sentences `Interchangeable`; the rest holds of any two that are.
-/

namespace Consequence.Sentence

/-! ## Reordered sentences -/

/-- The second sentence is the first with the parts of its conjunctions and disjunctions put in
another order, at any depths. A part may be reordered itself, so the parts of a junction are paired
with what becomes of them before they change places. -/
inductive Reordered : Sentence → Sentence → Prop where
  | symbol (s : Symbol) : Reordered (.symbol s) (.symbol s)
  | neg {p q : Sentence} (h : Reordered p q) : Reordered (.neg p) (.neg q)
  | conj {pairs : List (Sentence × Sentence)} {parts : List Sentence}
      (hpairs : ∀ pair ∈ pairs, Reordered pair.1 pair.2)
      (horder : (pairs.map Prod.snd).Perm parts) :
      Reordered (.conj (pairs.map Prod.fst)) (.conj parts)
  | disj {pairs : List (Sentence × Sentence)} {parts : List Sentence}
      (hpairs : ∀ pair ∈ pairs, Reordered pair.1 pair.2)
      (horder : (pairs.map Prod.snd).Perm parts) :
      Reordered (.disj (pairs.map Prod.fst)) (.disj parts)
  | imp {p p' q q' : Sentence} (hp : Reordered p p') (hq : Reordered q q') :
      Reordered (.imp p q) (.imp p' q')
  | iff {p p' q q' : Sentence} (hp : Reordered p p') (hq : Reordered q q') :
      Reordered (.iff p q) (.iff p' q')

section

variable {pairs : List (Sentence × Sentence)} {parts : List Sentence}

/-- What reordering a part does not change is there in the reordered parts if it was there
before. -/
theorem exists_part_iff {P : Sentence → Prop} (h : ∀ pair ∈ pairs, (P pair.1 ↔ P pair.2))
    (horder : (pairs.map Prod.snd).Perm parts) :
    (∃ p ∈ pairs.map Prod.fst, P p) ↔ ∃ p ∈ parts, P p := by
  have hpaired : (∃ pair ∈ pairs, P pair.1) ↔ ∃ pair ∈ pairs, P pair.2 :=
    exists_congr fun pair => and_congr_right fun hpair => h pair hpair
  simp only [← horder.mem_iff, List.mem_map, exists_exists_and_eq_and]
  exact hpaired

theorem any_parts_eq {f : Sentence → Bool} (h : ∀ pair ∈ pairs, f pair.1 = f pair.2)
    (horder : (pairs.map Prod.snd).Perm parts) : (pairs.map Prod.fst).any f = parts.any f := by
  rw [Bool.eq_iff_iff, List.any_eq_true, List.any_eq_true]
  exact exists_part_iff (fun pair hpair => by rw [h pair hpair]) horder

theorem Reordered.interchangeable {p q : Sentence} (h : p.Reordered q) :
    p.Interchangeable q := by
  induction h with
  | symbol s => exact .refl _
  | neg _ ih =>
      refine ⟨fun n => ?_, fun a => ?_⟩
      · rw [mentions_neg, mentions_neg, ih.mentions]
      · rw [Sentence.truth, Sentence.truth, ih.truth]
  | conj _ horder ih =>
      refine ⟨fun n => ?_, fun a => ?_⟩
      · rw [mentions_conj, mentions_conj]
        exact exists_part_iff (fun pair hpair => (ih pair hpair).mentions n) horder
      · rw [truth_conj, truth_conj, List.all_eq_not_any_not, List.all_eq_not_any_not]
        exact congrArg not
          (any_parts_eq (fun pair hpair => congrArg not ((ih pair hpair).truth a)) horder)
  | disj _ horder ih =>
      refine ⟨fun n => ?_, fun a => ?_⟩
      · rw [mentions_disj, mentions_disj]
        exact exists_part_iff (fun pair hpair => (ih pair hpair).mentions n) horder
      · rw [truth_disj, truth_disj]
        exact any_parts_eq (fun pair hpair => (ih pair hpair).truth a) horder
  | imp _ _ ihp ihq =>
      refine ⟨fun n => ?_, fun a => ?_⟩
      · rw [mentions_imp, mentions_imp, ihp.mentions, ihq.mentions]
      · rw [Sentence.truth, Sentence.truth, ihp.truth, ihq.truth]
  | iff _ _ ihp ihq =>
      refine ⟨fun n => ?_, fun a => ?_⟩
      · rw [mentions_iff, mentions_iff, ihp.mentions, ihq.mentions]
      · rw [Sentence.truth, Sentence.truth, ihp.truth, ihq.truth]

end

/-! ## Evaluation of interchangeable sentences -/

section

variable {p q : Sentence} {v : Valuation}

namespace Interchangeable

/-- Where every name has its value, both sentences come to one value. -/
theorem exists_evaluate_eq (h : p.Interchangeable q) (hv : ∀ n ∈ p.symbols, (v n).isSome) :
    ∃ value, p.evaluate v = .ok value ∧ q.evaluate v = .ok value := by
  have hvalue : ∀ n, p.Mentions n → v n = some ((v n).getD false) := by
    intro n hn
    obtain ⟨value, hvalue⟩ := Option.isSome_iff_exists.1 (hv n (mem_symbols.2 hn))
    rw [hvalue, Option.getD_some]
  refine ⟨p.truth fun n => (v n).getD false, evaluate_eq_truth hvalue, ?_⟩
  rw [h.truth]
  exact evaluate_eq_truth fun n hn => hvalue n ((h.mentions n).2 hn)

/-- Where names have no value, one sentence may have a value and the other not, but two values
agree. -/
theorem evaluate_agree (h : p.Interchangeable q) {value value' : Bool}
    (hp : p.evaluate v = .ok value) (hq : q.evaluate v = .ok value') : value = value' := by
  -- Any assignment would do that agrees with the valuation.
  have hextends : Valuation.Extends (fun n => some ((v n).getD false)) v := by
    intro n value hn
    show some ((v n).getD false) = some value
    rw [hn, Option.getD_some]
  rw [← truth_eq_of_evaluate hextends hp, ← truth_eq_of_evaluate hextends hq, h.truth]

end Interchangeable

end

/-- The order of conjuncts and disjuncts, at whatever depths, never changes a value. The reordered
sentence has the same symbols, and the same value on every valuation of these symbols. On a
valuation that leaves some of them out, either sentence may fail, at one of the symbols that have
no value; if neither does, they have the same value. -/
theorem evaluate_reordered {p q : Sentence} (h : p.Reordered q) :
    p.symbols = q.symbols ∧
    (∀ v : Valuation, (∀ n ∈ p.symbols, (v n).isSome) →
      ∃ value, p.evaluate v = .ok value ∧ q.evaluate v = .ok value) ∧
    (∀ (v : Valuation) (value value' : Bool),
      p.evaluate v = .ok value → q.evaluate v = .ok value' → value = value') ∧
    ∀ (v : Valuation) (e : Error), p.evaluate v = .error e ∨ q.evaluate v = .error e →
      ∃ n ∈ p.symbols, v n = none ∧ e = .unbound n := by
  have hpq := h.interchangeable
  refine ⟨hpq.symbols_eq, fun v => hpq.exists_evaluate_eq, fun v value value' => hpq.evaluate_agree,
    fun v e herror => ?_⟩
  rcases herror with herror | herror
  · obtain ⟨n, ⟨hn, hnone⟩, he⟩ := exists_unbound_of_evaluate herror
    exact ⟨n, mem_symbols.2 hn, hnone, he⟩
  · obtain ⟨n, ⟨hn, hnone⟩, he⟩ := exists_unbound_of_evaluate herror
    exact ⟨n, mem_symbols.2 ((hpq.mentions n).2 hn), hnone, he⟩

/-- The parts of a negated disjunction, exchanged: where the first one is true and the other has no
value, only one of the two orders comes to a value. -/
theorem evaluate_reordered_neg :
    (neg (disj [.symbol ⟨"p", by decide⟩, .symbol ⟨"q", by decide⟩])).Reordered
      (neg (disj [.symbol ⟨"q", by decide⟩, .symbol ⟨"p", by decide⟩])) ∧
    (neg (disj [.symbol ⟨"p", by decide⟩, .symbol ⟨"q", by decide⟩])).symbols =
      (neg (disj [.symbol ⟨"q", by decide⟩, .symbol ⟨"p", by decide⟩])).symbols ∧
    (neg (disj [.symbol ⟨"p", by decide⟩, .symbol ⟨"q", by decide⟩])).evaluate
      (Model.empty.insert "p" true).value? = .ok false ∧
    (neg (disj [.symbol ⟨"q", by decide⟩, .symbol ⟨"p", by decide⟩])).evaluate
      (Model.empty.insert "p" true).value? = .error (.unbound "q") := by
  have hparts : ∀ pair ∈ [(Sentence.symbol ⟨"p", by decide⟩, Sentence.symbol ⟨"p", by decide⟩),
      (.symbol ⟨"q", by decide⟩, .symbol ⟨"q", by decide⟩)], pair.1.Reordered pair.2 := by
    intro pair hpair
    rcases List.mem_pair.1 hpair with rfl | rfl <;> exact .symbol _
  have hreordered := Reordered.neg (.disj hparts (.swap _ _ _))
  exact ⟨hreordered, (evaluate_reordered hreordered).1, rfl, rfl⟩

end Consequence.Sentence
