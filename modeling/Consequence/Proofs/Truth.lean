import Consequence.Sentence.Evaluate
import Consequence.Sentence.Symbols

/-!
# Truth under an assignment

An assignment gives every name a truth value, so the classical truth of a sentence reads nothing
in an order and meets nothing that has no value. Evaluation does both. The two agree as soon as
a valuation says what the assignment says of the names that the sentence mentions, and it does
not have to say anything of other names: that is `evaluate_eq_truth`.

With truth comes consequence, `Entails`: the assignments that make one sentence true make the
other true as well. It speaks of all names, and not only of those in either sentence.
-/

namespace Consequence

/-- Gives every name a truth value, whether a sentence mentions it or not. -/
abbrev Assignment := String → Bool

namespace Sentence

/-! ## The names that a sentence mentions

A name is mentioned where it stands at a leaf, on either side of an implication and behind any
number of parts. The symbols of a sentence are collected by a walk that hands a set on from part
to part; membership in what comes out does not depend on the walk. -/

/-- The name stands at a leaf of the sentence. -/
inductive Mentions (n : String) : Sentence → Prop where
  | leaf {s : Symbol} (h : n = s.name) : Mentions n (.symbol s)
  | child {p q : Sentence} (h : q ∈ p.children) (hq : Mentions n q) : Mentions n p

section

variable {n : String} {p q : Sentence} {parts : List Sentence}

theorem mentions_iff_of_children (hne : ∀ s, p ≠ .symbol s) :
    p.Mentions n ↔ ∃ q ∈ p.children, q.Mentions n := by
  constructor
  · intro h
    cases h with
    | leaf h => exact absurd rfl (hne _)
    | child h hq => exact ⟨_, h, hq⟩
  · rintro ⟨q, hq, h⟩
    exact .child hq h

@[simp] theorem mentions_symbol {s : Symbol} : (Sentence.symbol s).Mentions n ↔ n = s.name := by
  constructor
  · intro h
    cases h with
    | leaf h => exact h
    | child h _ => cases h
  · exact .leaf

@[simp] theorem mentions_neg : (Sentence.neg p).Mentions n ↔ p.Mentions n := by
  simp [mentions_iff_of_children (p := .neg p) nofun, children]

@[simp] theorem mentions_conj :
    (Sentence.conj parts).Mentions n ↔ ∃ p ∈ parts, p.Mentions n :=
  mentions_iff_of_children nofun

@[simp] theorem mentions_disj :
    (Sentence.disj parts).Mentions n ↔ ∃ p ∈ parts, p.Mentions n :=
  mentions_iff_of_children nofun

@[simp] theorem mentions_imp :
    (Sentence.imp p q).Mentions n ↔ p.Mentions n ∨ q.Mentions n := by
  simp [mentions_iff_of_children (p := .imp p q) nofun, children]

@[simp] theorem mentions_iff :
    (Sentence.iff p q).Mentions n ↔ p.Mentions n ∨ q.Mentions n := by
  simp [mentions_iff_of_children (p := .iff p q) nofun, children]

/-- What stands at a leaf is a name. -/
theorem Mentions.isName (h : p.Mentions n) : IsName n.toList := by
  induction h with
  | @leaf s h => exact h ▸ s.isName
  | child _ _ ih => exact ih

theorem mem_extendSymbolsAll (ih : ∀ p ∈ parts, ∀ names : NameSet,
      n ∈ p.extendSymbols names ↔ n ∈ names ∨ p.Mentions n) : ∀ names : NameSet,
    n ∈ extendSymbolsAll parts names ↔ n ∈ names ∨ ∃ p ∈ parts, p.Mentions n := by
  induction parts with
  | nil => simp [extendSymbolsAll]
  | cons p parts ihparts =>
      intro names
      have hp := ih p List.mem_cons_self names
      have hparts := ihparts (fun q hq => ih q (List.mem_cons_of_mem p hq))
        (p.extendSymbols names)
      rw [extendSymbolsAll, hparts, hp, or_assoc]
      simp

/-- Putting the names of a sentence into a set adds these names and loses none. -/
@[simp] theorem mem_extendSymbols : ∀ names : NameSet,
    n ∈ p.extendSymbols names ↔ n ∈ names ∨ p.Mentions n := by
  induction p with
  | symbol s => simp [extendSymbols, or_comm]
  | neg p ih =>
      intro names
      rw [extendSymbols, ih, mentions_neg]
  | conj parts ih =>
      intro names
      rw [extendSymbols, mem_extendSymbolsAll ih, mentions_conj]
  | disj parts ih =>
      intro names
      rw [extendSymbols, mem_extendSymbolsAll ih, mentions_disj]
  | imp p q ihp ihq =>
      intro names
      rw [extendSymbols, ihq, ihp, or_assoc, mentions_imp]
  | iff p q ihp ihq =>
      intro names
      rw [extendSymbols, ihq, ihp, or_assoc, mentions_iff]

@[simp] theorem mem_symbols : n ∈ p.symbols ↔ p.Mentions n := by
  simp [symbols]

end

/-! ## Truth -/

mutual

/-- Whether the sentence is true under the assignment. -/
def truth (a : Assignment) : Sentence → Bool
  | .symbol s => a s.name
  | .neg p => !p.truth a
  | .conj parts => truthAll a parts
  | .disj parts => truthAny a parts
  | .imp p q => !p.truth a || q.truth a
  | .iff p q => p.truth a == q.truth a

def truthAll (a : Assignment) : List Sentence → Bool
  | [] => true
  | p :: parts => p.truth a && truthAll a parts

def truthAny (a : Assignment) : List Sentence → Bool
  | [] => false
  | p :: parts => p.truth a || truthAny a parts

end

theorem truthAll_eq_all (a : Assignment) (parts : List Sentence) :
    truthAll a parts = parts.all (·.truth a) := by
  induction parts with
  | nil => rfl
  | cons p parts ih => rw [truthAll, ih, List.all_cons]

/-- A conjunction is true where all its parts are. -/
@[simp] theorem truth_conj (a : Assignment) (parts : List Sentence) :
    (Sentence.conj parts).truth a = parts.all (·.truth a) :=
  truthAll_eq_all a parts

theorem truthAny_eq_any (a : Assignment) (parts : List Sentence) :
    truthAny a parts = parts.any (·.truth a) := by
  induction parts with
  | nil => rfl
  | cons p parts ih => rw [truthAny, ih, List.any_cons]

/-- A disjunction is true where one of its parts is. -/
@[simp] theorem truth_disj (a : Assignment) (parts : List Sentence) :
    (Sentence.disj parts).truth a = parts.any (·.truth a) :=
  truthAny_eq_any a parts

/-! ## Evaluation finds the truth -/

section

variable {v : Valuation} {a : Assignment}

theorem evaluateAll_eq_truthAll {parts : List Sentence}
    (h : ∀ p ∈ parts, p.evaluate v = .ok (p.truth a)) :
    evaluateAll v parts = .ok (truthAll a parts) := by
  induction parts with
  | nil => rfl
  | cons p parts ih =>
      have hparts := ih fun q hq => h q (List.mem_cons_of_mem p hq)
      rw [evaluateAll, truthAll, h p List.mem_cons_self, hparts]
      cases p.truth a <;> rfl

theorem evaluateAny_eq_truthAny {parts : List Sentence}
    (h : ∀ p ∈ parts, p.evaluate v = .ok (p.truth a)) :
    evaluateAny v parts = .ok (truthAny a parts) := by
  induction parts with
  | nil => rfl
  | cons p parts ih =>
      have hparts := ih fun q hq => h q (List.mem_cons_of_mem p hq)
      rw [evaluateAny, truthAny, h p List.mem_cons_self, hparts]
      cases p.truth a <;> rfl

/-- Evaluation succeeds, with the truth of the sentence, where every name that the sentence
mentions has the value that the assignment gives it. -/
theorem evaluate_eq_truth {p : Sentence} (h : ∀ n, p.Mentions n → v n = some (a n)) :
    p.evaluate v = .ok (p.truth a) := by
  induction p with
  | symbol s => rw [evaluate, h s.name (mentions_symbol.2 rfl), truth]
  | neg p ih =>
      have hp := ih fun n hn => h n (mentions_neg.2 hn)
      rw [evaluate, hp, truth]
      rfl
  | conj parts ih =>
      rw [evaluate, truth]
      exact evaluateAll_eq_truthAll fun p hp =>
        ih p hp fun n hn => h n (mentions_conj.2 ⟨p, hp, hn⟩)
  | disj parts ih =>
      rw [evaluate, truth]
      exact evaluateAny_eq_truthAny fun p hp =>
        ih p hp fun n hn => h n (mentions_disj.2 ⟨p, hp, hn⟩)
  | imp p q ihp ihq =>
      have hp := ihp fun n hn => h n (mentions_imp.2 (.inl hn))
      have hq := ihq fun n hn => h n (mentions_imp.2 (.inr hn))
      rw [evaluate, hp, hq, truth]
      cases p.truth a <;> rfl
  | iff p q ihp ihq =>
      have hp := ihp fun n hn => h n (mentions_iff.2 (.inl hn))
      have hq := ihq fun n hn => h n (mentions_iff.2 (.inr hn))
      rw [evaluate, hp, hq, truth]
      rfl

/-- The truth of a sentence depends on the names that it mentions and on no others. -/
theorem truth_congr {b : Assignment} {p : Sentence} (h : ∀ n, p.Mentions n → a n = b n) :
    p.truth a = p.truth b := by
  have ha : p.evaluate (fun n => some (a n)) = .ok (p.truth a) :=
    evaluate_eq_truth fun _ _ => rfl
  have hb : p.evaluate (fun n => some (a n)) = .ok (p.truth b) :=
    evaluate_eq_truth fun n hn => congrArg some (h n hn)
  exact Except.ok.inj (ha.symm.trans hb)

end

/-! ## Consequence -/

/-- Every assignment that makes `p` true makes `q` true. -/
def Entails (p q : Sentence) : Prop :=
  ∀ a : Assignment, p.truth a = true → q.truth a = true

end Sentence

end Consequence
