import Consequence.Proofs.Readability

/-!
# Where the parentheses stand

A formula gets its parentheses by looking at text: an operand is enclosed unless its text is bare,
and bare is a matter of names, balance and `¬` in front. The same formula can be written without
a look at any text. `written` goes by the tree, and encloses an operand just if it is compound:
if, without the junctions of one part around it, it joins two parts or more.

`formula_eq_written` says that both come to the same text. What the scan makes of an operand
depends on all the text below it, and not on its outermost connective alone. So what is needed is
that the scan of a formula finds what the reading of the sentence says (`operand_eq`), and with
that the induction has only to follow the tree.

A formula is never a group by itself, neither one that is compound, which has a blank outside all
parentheses, nor one that is not, which does not start with a parenthesis. So no pair of
parentheses is put right around another pair.
-/

namespace Consequence

/-! ## Writing by the tree -/

/-- A text with one pair of parentheses around it where they are asked for. -/
def Text.enclosed (parentheses : Bool) (text : List Char) : List Char :=
  if parentheses then '(' :: text ++ [')'] else text

namespace Sentence

open Text

/-- The sentence without the junctions of one part around it. -/
def core : Sentence → Sentence
  | .conj [p] | .disj [p] => p.core
  | p => p

/-- Whether the sentence joins two parts or more by a connective. -/
def joinsParts : Sentence → Bool
  | .symbol _ | .neg _ => false
  | .conj parts | .disj parts => decide (2 ≤ parts.length)
  | .imp _ _ | .iff _ _ => true

def isCompound (p : Sentence) : Bool :=
  p.core.joinsParts

mutual

def writtenChars : Sentence → List Char
  | .symbol s => s.name.toList
  | .neg p => '¬' :: enclosed p.isCompound p.writtenChars
  | .conj [] | .disj [] => []
  | .conj [p] | .disj [p] => p.writtenChars
  | .conj parts => Connective.conj.text.intercalate (writtenOperands parts)
  | .disj parts => Connective.disj.text.intercalate (writtenOperands parts)
  | .imp p q =>
    enclosed p.isCompound p.writtenChars ++ Connective.imp.text
      ++ enclosed q.isCompound q.writtenChars
  | .iff p q =>
    enclosed p.isCompound p.writtenChars ++ Connective.iff.text
      ++ enclosed q.isCompound q.writtenChars

def writtenOperands : List Sentence → List (List Char)
  | [] => []
  | p :: parts => enclosed p.isCompound p.writtenChars :: writtenOperands parts

end

/-- The formula of a sentence, written by its tree alone. -/
def written (p : Sentence) : String :=
  String.ofList p.writtenChars

/-! ## The scan encloses the compound operands -/

theorem isCompound_reading (p : Sentence) : p.reading.isCompound = p.isCompound := by
  induction p with
  | symbol s => rfl
  | neg p _ => rfl
  | conj parts ih =>
      rcases parts with _ | ⟨p, _ | ⟨q, more⟩⟩
      · rfl
      · exact ih p List.mem_cons_self
      · rfl
  | disj parts ih =>
      rcases parts with _ | ⟨p, _ | ⟨q, more⟩⟩
      · rfl
      · exact ih p List.mem_cons_self
      · rfl
  | imp p q _ _ => rfl
  | iff p q _ _ => rfl

theorem operand_eq_enclosed (p : Sentence) : p.operand = enclosed p.isCompound p.formulaChars := by
  rw [operand_eq, isCompound_reading, enclosed]

/-- No formula is itself a group. -/
theorem isGroup_formulaChars (p : Sentence) : isGroup p.formulaChars = false := by
  cases hgroup : isGroup p.formulaChars with
  | false => rfl
  | true =>
      -- A group is bare, so the sentence is not compound; then no parenthesis stands in front.
      have hcompound : p.reading.isCompound = false := by
        have hbare := p.isBare_formulaChars
        rw [isBare_of_isGroup hgroup] at hbare
        simpa using hbare.symm
      obtain ⟨inside, htext, -⟩ := isGroup_iff.1 hgroup
      exact absurd (congrArg List.head? htext) (head?_formulaChars_ne hcompound)

/-! ## Both come to one text -/

theorem writtenOperands_eq {parts : List Sentence}
    (h : ∀ p ∈ parts, p.writtenChars = p.formulaChars) :
    writtenOperands parts = parts.map operand := by
  induction parts with
  | nil => rfl
  | cons p parts ih =>
      rw [writtenOperands, h p List.mem_cons_self, ← operand_eq_enclosed,
        ih fun q hq => h q (List.mem_cons_of_mem p hq), List.map_cons]

theorem writtenChars_eq (p : Sentence) : p.writtenChars = p.formulaChars := by
  induction p with
  | symbol s => rfl
  | neg p ih =>
      rw [writtenChars, ih, ← operand_eq_enclosed, formulaChars]
      rfl
  | conj parts ih =>
      rcases parts with _ | ⟨p, _ | ⟨q, more⟩⟩
      · rfl
      · exact ih p List.mem_cons_self
      · show Connective.conj.text.intercalate (writtenOperands (p :: q :: more)) = _
        rw [writtenOperands_eq ih, formulaChars_eq_text]
        rfl
  | disj parts ih =>
      rcases parts with _ | ⟨p, _ | ⟨q, more⟩⟩
      · rfl
      · exact ih p List.mem_cons_self
      · show Connective.disj.text.intercalate (writtenOperands (p :: q :: more)) = _
        rw [writtenOperands_eq ih, formulaChars_eq_text]
        rfl
  | imp p q ihp ihq =>
      rw [writtenChars, ihp, ihq, ← operand_eq_enclosed, ← operand_eq_enclosed, formulaChars]
      rfl
  | iff p q ihp ihq =>
      rw [writtenChars, ihp, ihq, ← operand_eq_enclosed, ← operand_eq_enclosed, formulaChars]
      rfl

/-- The formula that scanning text gives is the one that is written by the tree. As an operand, a
sentence is enclosed in parentheses just if it is compound; and what is enclosed is no group
already. -/
theorem formula_eq_written (p : Sentence) :
    p.formula = p.written ∧
      parenthesize p.formula.toList =
        (if p.isCompound then '(' :: p.formula.toList ++ [')'] else p.formula.toList) ∧
      isGroup p.formula.toList = false := by
  have htext : p.formula.toList = p.formulaChars := String.toList_ofList
  rw [htext]
  exact ⟨congrArg String.ofList p.writtenChars_eq.symm, p.operand_eq_enclosed,
    p.isGroup_formulaChars⟩

/-- The junction of one part is seen through, and the one of none leaves nothing to enclose. -/
example : (conj [.disj [.imp (.symbol ⟨"p", by decide⟩) (.symbol ⟨"q", by decide⟩)],
    .neg (.disj [])]).formula = "(p => q) ∧ ¬" :=
  rfl

end Sentence

end Consequence
