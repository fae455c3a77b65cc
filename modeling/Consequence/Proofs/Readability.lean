import Consequence.Proofs.Balance
import Consequence.Proofs.Connectives

/-!
# Formulas can be read back

A formula drops two things: a junction of one part is written as the part, and a junction of none
as nothing, whichever connective it has. It drops no more. `norm` drops the same from the
sentence itself, and `formula_eq_iff` says that two sentences have one formula just if they have
one `norm`.

The proof reads a formula from the outside in. What a sentence is when the junctions of one part
around it are taken away is its reading: nothing, a name, a negation, or a row of two or more
operands with a connective between them. `formulaChars_eq_text` writes the formula by the
reading, so formulas are compared reading by reading. The printer decides on parentheses by
scanning text, and `isBare_formulaChars` says that the scan always finds what the reading says:
an operand is in parentheses just if it is compound. Hence every operand is tight, and a row of
tight texts between connectives can be taken apart again (`text_compound_inj`).
-/

namespace Consequence

/-! ## Sentences with the same formula -/

namespace Sentence

mutual

/-- The sentence with every junction of one part replaced by the part, and every junction of no
part by the empty conjunction. -/
def norm : Sentence → Sentence
  | .symbol s => .symbol s
  | .neg p => .neg p.norm
  | .conj [] | .disj [] => .conj []
  | .conj [p] | .disj [p] => p.norm
  | .conj (p :: q :: parts) => .conj (p.norm :: q.norm :: normAll parts)
  | .disj (p :: q :: parts) => .disj (p.norm :: q.norm :: normAll parts)
  | .imp p q => .imp p.norm q.norm
  | .iff p q => .iff p.norm q.norm

def normAll : List Sentence → List Sentence
  | [] => []
  | p :: parts => p.norm :: normAll parts

end

theorem normAll_eq_map (parts : List Sentence) : normAll parts = parts.map norm := by
  induction parts with
  | nil => rfl
  | cons p parts ih => rw [normAll, List.map_cons, ih]

theorem formulaCharsAll_eq_map (parts : List Sentence) :
    formulaCharsAll parts = parts.map formulaChars := by
  induction parts with
  | nil => rfl
  | cons p parts ih => rw [formulaCharsAll, List.map_cons, ih]

/-- The formula of a sentence as it stands in the formula of another. -/
def operand (p : Sentence) : List Char :=
  Text.parenthesize p.formulaChars

end Sentence

/-! ## Readings -/

inductive Connective where
  | conj
  | disj
  | imp
  | iff

/-- A connective as it stands between two operands. -/
def Connective.text : Connective → List Char
  | conj => [' ', '∧', ' ']
  | disj => [' ', '∨', ' ']
  | imp => [' ', '=', '>', ' ']
  | iff => [' ', '<', '=', '>', ' ']

/-- What a formula shows of a sentence at the outside. A row has two operands at least. -/
inductive Reading where
  | nothing
  | name (s : Symbol)
  | negation (p : Sentence)
  | compound (k : Connective) (p q : Sentence) (more : List Sentence)

namespace Reading

def isCompound : Reading → Bool
  | compound .. => true
  | _ => false

def parts : Reading → List Sentence
  | nothing | name _ => []
  | negation p => [p]
  | compound _ p q more => p :: q :: more

def text : Reading → List Char
  | nothing => []
  | name s => s.name.toList
  | negation p => '¬' :: p.operand
  | compound k p q more => k.text.intercalate ((p :: q :: more).map Sentence.operand)

def norm : Reading → Sentence
  | nothing => .conj []
  | name s => .symbol s
  | negation p => .neg p.norm
  | compound .conj p q more => .conj ((p :: q :: more).map Sentence.norm)
  | compound .disj p q more => .disj ((p :: q :: more).map Sentence.norm)
  | compound .imp p q _ => .imp p.norm q.norm
  | compound .iff p q _ => .iff p.norm q.norm

end Reading

namespace Sentence

/-- What is left of a sentence without the junctions of one part around it. -/
def reading : Sentence → Reading
  | .symbol s => .name s
  | .neg p => .negation p
  | .conj [] | .disj [] => .nothing
  | .conj [p] | .disj [p] => p.reading
  | .conj (p :: q :: parts) => .compound .conj p q parts
  | .disj (p :: q :: parts) => .compound .disj p q parts
  | .imp p q => .compound .imp p q []
  | .iff p q => .compound .iff p q []

/-- To show something of every sentence, show it of each from the parts of its reading. -/
theorem reading_induction {motive : Sentence → Prop}
    (step : ∀ p, (∀ q ∈ p.reading.parts, motive q) → motive p) (p : Sentence) : motive p := by
  have hpair : ∀ {p q : Sentence}, motive p → motive q → ∀ r ∈ [p, q], motive r := by
    intro p q hp hq r hr
    rcases List.mem_cons.1 hr with rfl | hr
    · exact hp
    · exact List.mem_singleton.1 hr ▸ hq
  refine step p ?_
  induction p with
  | symbol s => exact nofun
  | neg p ih =>
      intro q hq
      rw [List.mem_singleton.1 hq]
      exact step p ih
  | conj parts ih =>
      match parts with
      | [] => exact nofun
      | [p] => exact ih p List.mem_cons_self
      | _ :: _ :: _ => exact fun q hq => step q (ih q hq)
  | disj parts ih =>
      match parts with
      | [] => exact nofun
      | [p] => exact ih p List.mem_cons_self
      | _ :: _ :: _ => exact fun q hq => step q (ih q hq)
  | imp p q ihp ihq => exact hpair (step p ihp) (step q ihq)
  | iff p q ihp ihq => exact hpair (step p ihp) (step q ihq)

theorem junction_formulaCharsAll (k : Connective) (p q : Sentence) (more : List Sentence) :
    junction k.text (formulaCharsAll (p :: q :: more)) = (Reading.compound k p q more).text := by
  rw [formulaCharsAll_eq_map]
  show k.text.intercalate (((p :: q :: more).map formulaChars).map Text.parenthesize) = _
  rw [List.map_map]
  rfl

/-- The formula is written by the reading. -/
theorem formulaChars_eq_text (p : Sentence) : p.formulaChars = p.reading.text := by
  induction p with
  | symbol s => rfl
  | neg p _ => rfl
  | conj parts ih =>
      match parts with
      | [] => rfl
      | [p] => exact ih p List.mem_cons_self
      | p :: q :: more => exact junction_formulaCharsAll .conj p q more
  | disj parts ih =>
      match parts with
      | [] => rfl
      | [p] => exact ih p List.mem_cons_self
      | p :: q :: more => exact junction_formulaCharsAll .disj p q more
  | imp p q _ _ =>
      show _ = Connective.imp.text.intercalate [p.operand, q.operand]
      rw [List.intercalate_cons_cons, List.intercalate_singleton]
      rfl
  | iff p q _ _ =>
      show _ = Connective.iff.text.intercalate [p.operand, q.operand]
      rw [List.intercalate_cons_cons, List.intercalate_singleton]
      rfl

theorem norm_eq_norm_reading (p : Sentence) : p.norm = p.reading.norm := by
  induction p with
  | symbol s => rfl
  | neg p _ => rfl
  | conj parts ih =>
      match parts with
      | [] => rfl
      | [p] => exact ih p List.mem_cons_self
      | p :: q :: more => rw [norm, normAll_eq_map]; rfl
  | disj parts ih =>
      match parts with
      | [] => rfl
      | [p] => exact ih p List.mem_cons_self
      | p :: q :: more => rw [norm, normAll_eq_map]; rfl
  | imp p q _ _ => rfl
  | iff p q _ _ => rfl

end Sentence

/-! ## The scan finds the reading

Whether an operand gets parentheses is decided by `isBare` on its text. The texts of formulas
are balanced, so an operand is tight either way; and a row of operands has a blank behind the
first of them, so it is not tight and cannot be bare. -/

namespace Text

theorem isBare_of_isName {text : List Char} (h : IsName text) : isBare text = true := by
  cases text with
  | nil => rfl
  | cons c rest => exact isBare_cons_iff.2 (.inl h)

theorem isBare_of_isGroup {text : List Char} (h : isGroup text = true) : isBare text = true := by
  cases text with
  | nil => rfl
  | cons c rest => exact isBare_cons_iff.2 (.inr (.inl h))

theorem isBare_parenthesize {text : List Char} (h : isBalanced text = true) :
    isBare (parenthesize text) = true := by
  unfold parenthesize
  split
  · next hbare => exact hbare
  · exact isBare_of_isGroup (isGroup_iff.2 ⟨text, rfl, h⟩)

theorem isBalanced_intercalate {separator : List Char} (hseparator : isBalanced separator = true)
    {texts : List (List Char)} (h : ∀ text ∈ texts, isBalanced text = true) :
    isBalanced (separator.intercalate texts) = true := by
  induction texts with
  | nil => rfl
  | cons text texts ih =>
      have htext := h text List.mem_cons_self
      have htexts := ih fun t ht => h t (List.mem_cons_of_mem text ht)
      cases texts with
      | nil => rw [List.intercalate_singleton]; exact htext
      | cons next texts =>
          rw [List.intercalate_cons_cons, List.append_assoc, isBalanced_append htext,
            isBalanced_append hseparator]
          exact htexts

end Text

open Text

theorem Connective.isBalanced_text (k : Connective) : isBalanced k.text = true := by
  cases k <;> decide

/-- Operands, each after the connective. -/
def Connective.row (k : Connective) (operands : List Sentence) : List Char :=
  operands.flatMap (k.text ++ ·.operand)

theorem Connective.row_cons (k : Connective) (p : Sentence) (operands : List Sentence) :
    ∃ rest, k.row (p :: operands) = ' ' :: rest := by
  cases k <;> exact ⟨_, rfl⟩

theorem Connective.row_eq_nil_or_blank (k : Connective) (operands : List Sentence) :
    k.row operands = [] ∨ ∃ rest, k.row operands = ' ' :: rest := by
  cases operands with
  | nil => exact .inl rfl
  | cons p operands => exact .inr (k.row_cons p operands)

theorem Reading.text_compound (k : Connective) (p q : Sentence) (more : List Sentence) :
    (compound k p q more).text = p.operand ++ k.row (q :: more) := by
  have h : ∀ (p : Sentence) (more : List Sentence),
      k.text.intercalate ((p :: more).map Sentence.operand) = p.operand ++ k.row more := by
    intro p more
    induction more generalizing p with
    | nil => simp [Connective.row]
    | cons q more ih =>
        rw [List.map_cons, List.map_cons, List.intercalate_cons_cons, ← List.map_cons, ih,
          Connective.row, Connective.row, List.flatMap_cons, List.append_assoc,
          List.append_assoc]
  exact h p (q :: more)

namespace Sentence

theorem isBalanced_formulaChars (p : Sentence) : isBalanced p.formulaChars = true := by
  induction p using reading_induction with
  | step p ih =>
      rw [formulaChars_eq_text]
      have hoperand : ∀ q ∈ p.reading.parts, isBalanced q.operand = true := fun q hq =>
        (tight_of_isBare (isBare_parenthesize (ih q hq))).isBalanced
      generalize p.reading = r at hoperand
      cases r with
      | nothing => rfl
      | name s => exact isBalanced_of_isName s.isName
      | negation q =>
          rw [Reading.text, isBalanced, closes_other (by decide) (by decide)]
          exact hoperand q (List.mem_singleton.2 rfl)
      | compound k q q' more =>
          refine isBalanced_intercalate k.isBalanced_text fun text htext => ?_
          obtain ⟨part, hpart, rfl⟩ := List.mem_map.1 htext
          exact hoperand part hpart

theorem isBare_operand (p : Sentence) : isBare p.operand = true :=
  isBare_parenthesize p.isBalanced_formulaChars

theorem tight_operand (p : Sentence) : Tight p.operand :=
  tight_of_isBare p.isBare_operand

/-- A formula is bare just if its sentence is not compound. -/
theorem isBare_formulaChars (p : Sentence) :
    isBare p.formulaChars = !p.reading.isCompound := by
  rw [formulaChars_eq_text]
  cases p.reading with
  | nothing => rfl
  | name s => exact isBare_of_isName s.isName
  | negation q =>
      rw [Reading.text, isBare, isBare_operand]
      simp [Reading.isCompound]
  | compound k q q' more =>
      obtain ⟨rest, hrest⟩ := k.row_cons q' more
      rw [Reading.text_compound, hrest]
      cases hbare : isBare (q.operand ++ ' ' :: rest) with
      | false => rfl
      | true =>
          have hblank := (tight_of_isBare hbare).blank q.operand rest rfl
          rw [q.tight_operand.isBalanced] at hblank
          cases hblank

theorem operand_eq (p : Sentence) : p.operand =
    if p.reading.isCompound then '(' :: p.formulaChars ++ [')'] else p.formulaChars := by
  rw [operand, parenthesize, isBare_formulaChars]
  cases p.reading.isCompound <;> rfl

theorem head?_formulaChars_ne {p : Sentence} (h : p.reading.isCompound = false) :
    p.formulaChars.head? ≠ some '(' := by
  rw [formulaChars_eq_text]
  cases hr : p.reading with
  | nothing => exact nofun
  | name s =>
      intro hhead
      have hmem : '(' ∈ s.name.toList := List.mem_of_mem_head? hhead
      exact ne_of_isName s.isName hmem (by decide) rfl
  | negation q => exact fun hhead => absurd (Option.some.inj hhead) (by decide)
  | compound k q q' more => rw [hr] at h; cases h

/-- An operand shows the formula that it is made from. -/
theorem formulaChars_eq_of_operand_eq {p q : Sentence} (h : p.operand = q.operand) :
    p.formulaChars = q.formulaChars := by
  rw [operand_eq, operand_eq] at h
  cases hp : p.reading.isCompound with
  | true =>
      cases hq : q.reading.isCompound with
      | true =>
          rw [hp, hq] at h
          exact List.append_cancel_right (List.cons.inj h).2
      | false =>
          rw [hp, hq] at h
          exact absurd (congrArg List.head? h.symm) (head?_formulaChars_ne hq)
  | false =>
      cases hq : q.reading.isCompound with
      | true =>
          rw [hp, hq] at h
          exact absurd (congrArg List.head? h) (head?_formulaChars_ne hp)
      | false =>
          rw [hp, hq] at h
          exact h

end Sentence

/-! ## Taking a formula apart -/

namespace Connective

theorem eq_of_text_append {k k' : Connective} {rest rest' : List Char}
    (h : k.text ++ rest = k'.text ++ rest') : k = k' := by
  cases k <;> cases k' <;> simp [text] at h ⊢

theorem row_inj {k : Connective} {operands operands' : List Sentence}
    (h : k.row operands = k.row operands') :
    operands.map Sentence.formulaChars = operands'.map Sentence.formulaChars := by
  have hne : ∀ (p : Sentence) (more : List Sentence), k.row (p :: more) ≠ [] := by
    intro p more hnil
    obtain ⟨rest, hrest⟩ := k.row_cons p more
    cases hrest.symm.trans hnil
  induction operands generalizing operands' with
  | nil =>
      cases operands' with
      | nil => rfl
      | cons p' more' => exact absurd h.symm (hne p' more')
  | cons p more ih =>
      cases operands' with
      | nil => exact absurd h (hne p more)
      | cons p' more' =>
          rw [row, row, List.flatMap_cons, List.flatMap_cons, List.append_assoc,
            List.append_assoc] at h
          obtain ⟨hp, hmore⟩ := append_inj_of_tight p.tight_operand p'.tight_operand
            (k.row_eq_nil_or_blank more) (k.row_eq_nil_or_blank more')
            (List.append_cancel_left h)
          rw [List.map_cons, List.map_cons, Sentence.formulaChars_eq_of_operand_eq hp, ih hmore]

end Connective

namespace Reading

/-- A compound text has one connective and one row of operands. -/
theorem text_compound_inj {k k' : Connective} {p q p' q' : Sentence} {more more' : List Sentence}
    (h : (compound k p q more).text = (compound k' p' q' more').text) :
    k = k' ∧ (p :: q :: more).map Sentence.formulaChars =
      (p' :: q' :: more').map Sentence.formulaChars := by
  rw [text_compound, text_compound] at h
  obtain ⟨hp, hrow⟩ := append_inj_of_tight p.tight_operand p'.tight_operand
    (k.row_eq_nil_or_blank _) (k'.row_eq_nil_or_blank _) h
  have hk : k = k' := by
    have hfirst := hrow
    rw [Connective.row, Connective.row, List.flatMap_cons, List.flatMap_cons,
      List.append_assoc, List.append_assoc] at hfirst
    exact Connective.eq_of_text_append hfirst
  subst hk
  refine ⟨rfl, ?_⟩
  rw [List.map_cons, Sentence.formulaChars_eq_of_operand_eq hp, Connective.row_inj hrow]
  rfl

/-- The two readings show the same. -/
def Alike : Reading → Reading → Prop
  | nothing, nothing => True
  | name s, name t => s = t
  | negation p, negation q => p.formulaChars = q.formulaChars
  | compound k p q more, compound k' p' q' more' =>
    k = k' ∧ (p :: q :: more).map Sentence.formulaChars =
      (p' :: q' :: more').map Sentence.formulaChars
  | _, _ => False

end Reading

namespace Sentence

theorem alike_of_formulaChars_eq {p q : Sentence} (h : p.formulaChars = q.formulaChars) :
    p.reading.Alike q.reading := by
  have hcompound : p.reading.isCompound = q.reading.isCompound := by
    have hbare := congrArg isBare h
    rw [isBare_formulaChars, isBare_formulaChars] at hbare
    exact Bool.not_inj hbare
  have hname : ∀ (s : Symbol) (text : List Char), s.name.toList ≠ '¬' :: text := by
    intro s text heq
    exact ne_of_isName s.isName (heq ▸ List.mem_cons_self) (by decide) rfl
  rw [formulaChars_eq_text, formulaChars_eq_text] at h
  generalize p.reading = r at h hcompound
  generalize q.reading = r' at h hcompound
  cases r with
  | nothing =>
      cases r' with
      | nothing => trivial
      | name t => exact absurd h.symm t.isName.1
      | negation q => cases h
      | compound => cases hcompound
  | name s =>
      cases r' with
      | nothing => exact absurd h s.isName.1
      | name t => exact Symbol.ext_name (String.toList_injective h)
      | negation q => exact absurd h (hname s _)
      | compound => cases hcompound
  | negation p =>
      cases r' with
      | nothing => cases h
      | name t => exact absurd h.symm (hname t _)
      | negation q => exact formulaChars_eq_of_operand_eq (List.cons.inj h).2
      | compound => cases hcompound
  | compound k p q more =>
      cases r' with
      | compound => exact Reading.text_compound_inj h
      | _ => cases hcompound

/-! ## What a formula keeps and what it drops -/

/-- If each member of a list is read back from its text, the list is read back from the texts. -/
theorem map_eq_of_map_eq {α : Type} {text : Sentence → List Char} {value : Sentence → α}
    {ps qs : List Sentence} (ih : ∀ p ∈ ps, ∀ {q : Sentence}, text p = text q → value p = value q)
    (h : ps.map text = qs.map text) : ps.map value = qs.map value := by
  induction ps generalizing qs with
  | nil => rw [List.map_eq_nil_iff.1 h.symm]
  | cons p ps ihps =>
      cases qs with
      | nil => cases h
      | cons q qs =>
          obtain ⟨hp, hps⟩ := List.cons.inj h
          rw [List.map_cons, List.map_cons, ih p List.mem_cons_self hp,
            ihps (fun r hr => ih r (List.mem_cons_of_mem p hr)) hps]

/-- From one formula one normal form is read. -/
theorem norm_eq_of_formulaChars_eq {p q : Sentence} (h : p.formulaChars = q.formulaChars) :
    p.norm = q.norm := by
  induction p using reading_induction generalizing q with
  | step p ih =>
      have halike := alike_of_formulaChars_eq h
      rw [norm_eq_norm_reading, norm_eq_norm_reading]
      generalize p.reading = r at ih halike
      generalize q.reading = r' at halike
      cases r with
      | nothing =>
          cases r' with
          | nothing => rfl
          | _ => exact halike.elim
      | name s =>
          cases r' with
          | name t => exact congrArg Sentence.symbol halike
          | _ => exact halike.elim
      | negation p' =>
          cases r' with
          | negation q' =>
              exact congrArg Sentence.neg (ih p' (List.mem_singleton.2 rfl) halike)
          | _ => exact halike.elim
      | compound k p₁ p₂ more =>
          cases r' with
          | compound k' q₁ q₂ more' =>
              obtain ⟨rfl, hformulas⟩ := halike
              have hnorms := map_eq_of_map_eq ih hformulas
              obtain ⟨hfirst, hrest⟩ := List.cons.inj hnorms
              obtain ⟨hsecond, -⟩ := List.cons.inj hrest
              cases k with
              | conj => exact congrArg Sentence.conj hnorms
              | disj => exact congrArg Sentence.disj hnorms
              | imp => rw [Reading.norm, Reading.norm, hfirst, hsecond]
              | iff => rw [Reading.norm, Reading.norm, hfirst, hsecond]
          | _ => exact halike.elim

theorem formulaCharsAll_map_norm {parts : List Sentence}
    (h : ∀ p ∈ parts, p.norm.formulaChars = p.formulaChars) :
    formulaCharsAll (parts.map norm) = formulaCharsAll parts := by
  rw [formulaCharsAll_eq_map, formulaCharsAll_eq_map, List.map_map]
  exact List.map_congr_left h

/-- The normal form has the same formula. -/
theorem formulaChars_norm (p : Sentence) : p.norm.formulaChars = p.formulaChars := by
  induction p with
  | symbol s => rfl
  | neg p ih => rw [norm, formulaChars, formulaChars, ih]
  | conj parts ih =>
      match parts with
      | [] => rfl
      | [p] => exact ih p List.mem_cons_self
      | p :: q :: more =>
          rw [norm, normAll_eq_map, ← List.map_cons, ← List.map_cons, formulaChars,
            formulaCharsAll_map_norm ih]
          rfl
  | disj parts ih =>
      match parts with
      | [] => rfl
      | [p] => exact ih p List.mem_cons_self
      | p :: q :: more =>
          rw [norm, normAll_eq_map, ← List.map_cons, ← List.map_cons, formulaChars,
            formulaCharsAll_map_norm ih]
          rfl
  | imp p q ihp ihq => rw [norm, formulaChars, formulaChars, ihp, ihq]
  | iff p q ihp ihq => rw [norm, formulaChars, formulaChars, ihp, ihq]

/-! ## Values -/

mutual

/-- Whether every junction in the sentence has a part. -/
def isFilled : Sentence → Bool
  | .symbol _ => true
  | .neg p => p.isFilled
  | .conj parts | .disj parts => !parts.isEmpty && isFilledAll parts
  | .imp p q | .iff p q => p.isFilled && q.isFilled

def isFilledAll : List Sentence → Bool
  | [] => true
  | p :: parts => p.isFilled && isFilledAll parts

end

theorem isFilledAll_eq_true_iff {parts : List Sentence} :
    isFilledAll parts = true ↔ ∀ p ∈ parts, p.isFilled = true := by
  induction parts with
  | nil => simp [isFilledAll]
  | cons p parts ih => rw [isFilledAll, Bool.and_eq_true, ih, List.forall_mem_cons]

section

variable {v : Valuation}

theorem evaluate_conj_singleton (p : Sentence) :
    (Sentence.conj [p]).evaluate v = p.evaluate v := by
  rw [evaluate_conj]
  exact readOn_ok_not false _

theorem evaluate_disj_singleton (p : Sentence) :
    (Sentence.disj [p]).evaluate v = p.evaluate v := by
  rw [evaluate_disj]
  exact readOn_ok_not true _

theorem map_evaluate_norm {parts : List Sentence}
    (h : ∀ p ∈ parts, p.norm.evaluate v = p.evaluate v) :
    (parts.map norm).map (·.evaluate v) = parts.map (·.evaluate v) := by
  rw [List.map_map]
  exact List.map_congr_left h

/-- Where no junction is without parts, the normal form has the same value in every model, also
where there is none for want of a name. -/
theorem evaluate_norm {p : Sentence} (h : p.isFilled = true) :
    p.norm.evaluate v = p.evaluate v := by
  induction p with
  | symbol s => rfl
  | neg p ih => rw [norm, evaluate, evaluate, ih h]
  | conj parts ih =>
      rw [isFilled, Bool.and_eq_true, isFilledAll_eq_true_iff] at h
      rcases parts with _ | ⟨p, _ | ⟨q, more⟩⟩
      · exact absurd h.1 (by decide)
      · rw [norm, evaluate_conj_singleton]
        exact ih p List.mem_cons_self (h.2 p List.mem_cons_self)
      · rw [norm, normAll_eq_map, ← List.map_cons, ← List.map_cons, evaluate_conj, evaluate_conj,
          map_evaluate_norm fun r hr => ih r hr (h.2 r hr)]
  | disj parts ih =>
      rw [isFilled, Bool.and_eq_true, isFilledAll_eq_true_iff] at h
      rcases parts with _ | ⟨p, _ | ⟨q, more⟩⟩
      · exact absurd h.1 (by decide)
      · rw [norm, evaluate_disj_singleton]
        exact ih p List.mem_cons_self (h.2 p List.mem_cons_self)
      · rw [norm, normAll_eq_map, ← List.map_cons, ← List.map_cons, evaluate_disj, evaluate_disj,
          map_evaluate_norm fun r hr => ih r hr (h.2 r hr)]
  | imp p q ihp ihq =>
      rw [isFilled, Bool.and_eq_true] at h
      rw [norm, evaluate, evaluate, ihp h.1, ihq h.2]
  | iff p q ihp ihq =>
      rw [isFilled, Bool.and_eq_true] at h
      rw [norm, evaluate, evaluate, ihp h.1, ihq h.2]

end

/-- Two sentences have one formula just if they have one normal form; and where no junction of
theirs is without parts, they then have one value in every model. -/
theorem formula_eq_iff (p q : Sentence) :
    (p.formula = q.formula ↔ p.norm = q.norm) ∧
      (p.isFilled = true → q.isFilled = true → p.formula = q.formula →
        ∀ v : Valuation, p.evaluate v = q.evaluate v) := by
  have hnorm : p.formula = q.formula ↔ p.norm = q.norm := by
    rw [formula, formula, String.ofList_inj]
    constructor
    · exact norm_eq_of_formulaChars_eq
    · intro h
      rw [← formulaChars_norm p, h, formulaChars_norm]
  refine ⟨hnorm, fun hp hq h v => ?_⟩
  rw [← evaluate_norm hp, hnorm.1 h, evaluate_norm hq]

end Sentence

end Consequence
