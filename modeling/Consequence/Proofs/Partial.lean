import Consequence.Proofs.Connectives
import Consequence.Proofs.Models

/-!
# Evaluation where values are missing

A valuation may be silent on some names of a sentence, and still the sentence may have a value in
it: what settles a connective can stand in front of the name that is missing. Whether it does
depends on the order of the operands, so it cannot be read off the truth of the sentence.

What can be said is how a result looks ahead. A value that comes out is final, however much more
the valuation will say; and if none comes out, the error says which name was looked for in vain.
`Foretells` is both in one relation, between the result in a valuation and the result in one that
extends it. Reading one operand after another hands the relation on (`Foretells.bind`), and every
connective does no more than that, so the induction over sentences has no case for what is passed
over.

`evaluate_sound` reads off what this means for one valuation.
-/

namespace Consequence

/-- What a result says of the result in a valuation that knows more. A value stays; an error is
that a name was read that is `missing`. -/
def Foretells (missing : String → Prop) : (result later : Except Error Bool) → Prop
  | .ok value, later => later = .ok value
  | .error e, _ => ∃ n, missing n ∧ e = .unbound n

section

variable {missing : String → Prop}

theorem Foretells.of_ok (value : Bool) : Foretells missing (.ok value) (.ok value) :=
  rfl

/-- One operand is read, and by its value what is read next. -/
theorem Foretells.bind {result later : Except Error Bool} {next next' : Bool → Except Error Bool}
    (h : Foretells missing result later)
    (hnext : ∀ value, Foretells missing (next value) (next' value)) :
    Foretells missing (result >>= next) (later >>= next') := by
  cases result with
  | error e => exact h
  | ok value =>
      have hlater : later = .ok value := h
      rw [hlater]
      exact hnext value

namespace Sentence

variable {v v' : Valuation}

/-- What holds of the parts of a junction holds of the junction, whichever value settles it. -/
theorem foretells_readAll (stop : Bool) {parts : List Sentence}
    (h : ∀ p ∈ parts, Foretells missing (p.evaluate v) (p.evaluate v')) :
    Foretells missing (readAll stop (parts.map (·.evaluate v)))
      (readAll stop (parts.map (·.evaluate v'))) := by
  induction parts with
  | nil => exact .of_ok !stop
  | cons p parts ih =>
      refine (h p List.mem_cons_self).bind fun value => ?_
      split
      · exact .of_ok stop
      · exact ih fun q hq => h q (List.mem_cons_of_mem p hq)

/-- Names are missing that the sentence mentions and the first valuation does not value. -/
theorem foretells_evaluate (hextends : v'.Extends v) {p : Sentence}
    (h : ∀ n, p.Mentions n → v n = none → missing n) :
    Foretells missing (p.evaluate v) (p.evaluate v') := by
  induction p with
  | symbol s =>
      rw [evaluate, evaluate]
      cases hvalue : v s.name with
      | none => exact ⟨s.name, h s.name (mentions_symbol.2 rfl) hvalue, rfl⟩
      | some value =>
          -- The one place where the two valuations are compared.
          rw [hextends s.name value hvalue]
          exact .of_ok value
  | neg p ih =>
      rw [evaluate, evaluate]
      have hp := ih fun n hn => h n (mentions_neg.2 hn)
      exact hp.bind fun value => .of_ok !value
  | conj parts ih =>
      rw [evaluate_conj, evaluate_conj]
      exact foretells_readAll false fun p hp =>
        ih p hp fun n hn => h n (mentions_conj.2 ⟨p, hp, hn⟩)
  | disj parts ih =>
      rw [evaluate_disj, evaluate_disj]
      exact foretells_readAll true fun p hp =>
        ih p hp fun n hn => h n (mentions_disj.2 ⟨p, hp, hn⟩)
  | imp p q ihp ihq =>
      rw [evaluate, evaluate]
      have hp := ihp fun n hn => h n (mentions_imp.2 (.inl hn))
      have hq := ihq fun n hn => h n (mentions_imp.2 (.inr hn))
      refine hp.bind fun value => ?_
      cases value with
      | false => exact .of_ok true -- the consequent is not read, in either valuation
      | true => exact hq
  | iff p q ihp ihq =>
      rw [evaluate, evaluate]
      have hp := ihp fun n hn => h n (mentions_iff.2 (.inl hn))
      have hq := ihq fun n hn => h n (mentions_iff.2 (.inr hn))
      exact hp.bind fun left => hq.bind fun right => .of_ok (left == right)

end Sentence

end

namespace Sentence

/-! ## What a result says -/

section

variable {v : Valuation} {p : Sentence}

theorem evaluate_eq_of_extends {v' : Valuation} {value : Bool} (hextends : v'.Extends v)
    (h : p.evaluate v = .ok value) : p.evaluate v' = .ok value := by
  have hforetells : Foretells (fun _ => True) (p.evaluate v) (p.evaluate v') :=
    foretells_evaluate hextends fun _ _ _ => trivial
  rw [h] at hforetells
  exact hforetells

theorem truth_eq_of_evaluate {a : Assignment} {value : Bool}
    (ha : Valuation.Extends (fun n => some (a n)) v) (h : p.evaluate v = .ok value) :
    p.truth a = value := by
  have htotal : p.evaluate (fun n => some (a n)) = .ok (p.truth a) :=
    evaluate_eq_truth fun _ _ => rfl
  exact Except.ok.inj (htotal.symm.trans (evaluate_eq_of_extends ha h))

/-- Evaluation fails in one way only: a name is read that has no value. -/
theorem exists_unbound_of_evaluate {e : Error} (h : p.evaluate v = .error e) :
    ∃ n, (p.Mentions n ∧ v n = none) ∧ e = .unbound n := by
  have hforetells : Foretells (fun n => p.Mentions n ∧ v n = none) (p.evaluate v)
      (p.evaluate v) :=
    foretells_evaluate v.extends_refl fun _ => And.intro
  rw [h] at hforetells
  exact hforetells

theorem eq_none_of_evaluate_eq_unbound {n : String} (h : p.evaluate v = .error (.unbound n)) :
    v n = none := by
  obtain ⟨n', ⟨-, hnone⟩, heq⟩ := exists_unbound_of_evaluate h
  rwa [Error.unbound.inj heq]

end

/-- Evaluation is sound where values are missing. A value that comes out is the value in every
extension, and the truth under every assignment that agrees with the valuation. An error names a
symbol of the sentence that has no value, and no valuation in which this symbol has a value,
whichever it is, brings the same error. If every symbol has its value, so has the sentence. -/
theorem evaluate_sound (p : Sentence) (v : Valuation) :
    (∀ value, p.evaluate v = .ok value →
      (∀ v' : Valuation, v'.Extends v → p.evaluate v' = .ok value) ∧
      ∀ a : Assignment, Valuation.Extends (fun n => some (a n)) v → p.truth a = value) ∧
    (∀ e, p.evaluate v = .error e → ∃ n ∈ p.symbols, v n = none ∧ e = .unbound n ∧
      ∀ (value : Bool) (v' : Valuation), v' n = some value →
        p.evaluate v' ≠ .error (.unbound n)) ∧
    ((∀ n ∈ p.symbols, (v n).isSome) → ∃ value, p.evaluate v = .ok value) := by
  refine ⟨fun value h => ?_, fun e h => ?_, fun hvalued => ?_⟩
  · exact ⟨fun v' hextends => evaluate_eq_of_extends hextends h,
      fun a ha => truth_eq_of_evaluate ha h⟩
  · obtain ⟨n, ⟨hn, hnone⟩, he⟩ := exists_unbound_of_evaluate h
    refine ⟨n, mem_symbols.2 hn, hnone, he, fun value v' hvalue hagain => ?_⟩
    rw [eq_none_of_evaluate_eq_unbound hagain] at hvalue
    cases hvalue
  · cases h : p.evaluate v with
    | ok value => exact ⟨value, rfl⟩
    | error e =>
        obtain ⟨n, ⟨hn, hnone⟩, -⟩ := exists_unbound_of_evaluate h
        have hsome := hvalued n (mem_symbols.2 hn)
        rw [hnone] at hsome
        cases hsome

/-- The second symbol has no value, and is read only behind a first that is false. -/
example : (disj [.symbol ⟨"p", by decide⟩, .symbol ⟨"q", by decide⟩]).evaluate
      (Model.empty.insert "p" true).value? = .ok true ∧
    (disj [.symbol ⟨"p", by decide⟩, .symbol ⟨"q", by decide⟩]).evaluate
      (Model.empty.insert "p" false).value? = .error (.unbound "q") :=
  ⟨rfl, rfl⟩

end Sentence

end Consequence
