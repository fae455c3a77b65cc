import Consequence.Proofs.Readability

/-!
# Balance as nesting

The scan keeps a number, and so it can tell nothing but how many parentheses are open. Texts of
parentheses that pair up are given by a grammar instead, in which a pair stands around one such text
and in front of another (`Paired`). `isBalanced_exact` says that the two come to the same.

Of the grammar it is plain that the scan accepts it: what stands inside a pair closes by itself. The
other way round a text is taken apart that the scan accepts, and it has to be taken apart from the
front, where a parenthesis may be open with its end nowhere in sight. What is behind an open
parenthesis is then no text of the grammar; it is one, then a closing parenthesis, and then another
one. `PairedPast` says this for any number of open parentheses, which is the number that the scan
has got to.

The second main statement is about putting in parentheses, which is decided by balance in part.
A second round changes nothing just if the text was balanced to begin with, for only then does the
pair that is put around it make a group. A text that was not balanced is enclosed a second time, even
if the first pair happens to have balanced it.
-/

namespace Consequence.Text

/-! ## The grammar -/

def isParenthesis (c : Char) : Bool :=
  c == '(' || c == ')'

theorem not_isParenthesis {c : Char} (hopen : c ≠ '(') (hclose : c ≠ ')') :
    ¬ isParenthesis c = true := by
  simp [isParenthesis, hopen, hclose]

/-- Nothing, or a pair around such a text and then another such text. -/
inductive Paired : List Char → Prop where
  | nil : Paired []
  | pair {inside rest : List Char} (hinside : Paired inside) (hrest : Paired rest) :
      Paired ('(' :: inside ++ ')' :: rest)

/-- Texts of the grammar, with as many closing parentheses between them as were open before. -/
def PairedPast : (depth : Nat) → List Char → Prop
  | 0, text => Paired text
  | depth + 1, text =>
    ∃ inside rest, text = inside ++ ')' :: rest ∧ Paired inside ∧ PairedPast depth rest

/-- A pair in front goes with the first of the texts. -/
theorem PairedPast.pair {depth : Nat} {inside rest : List Char} (hinside : Paired inside)
    (hrest : PairedPast depth rest) : PairedPast depth ('(' :: inside ++ ')' :: rest) := by
  cases depth with
  | zero => exact Paired.pair hinside hrest
  | succ depth =>
      obtain ⟨inside', rest', rfl, hinside', hrest'⟩ := hrest
      exact ⟨'(' :: inside ++ ')' :: inside', rest', by simp, hinside.pair hinside', hrest'⟩

/-- What closes the open parentheses and its own is a row of the grammar, one text longer than there
are open parentheses. -/
theorem pairedPast_of_closes {depth : Nat} {text : List Char} (h : closes depth text = true) :
    PairedPast depth (text.filter isParenthesis) := by
  induction depth, text using closes.induct with
  | case1 depth =>
      have hdepth : depth = 0 := by simpa [closes] using h
      rw [hdepth]
      exact .nil
  | case2 depth rest ih =>
      rw [closes_open] at h
      obtain ⟨inside, rest', hrest, hinside, hpast⟩ := ih h
      rw [List.filter_cons_of_pos rfl, hrest]
      exact .pair hinside hpast
  | case3 rest =>
      rw [closes_close_zero] at h
      cases h
  | case4 rest depth _ ih =>
      rw [closes_close] at h
      rw [List.filter_cons_of_pos rfl]
      exact ⟨[], _, rfl, .nil, ih h⟩
  | case5 depth c rest hopen hclose ih =>
      rw [closes_other hopen hclose] at h
      rw [List.filter_cons_of_neg (not_isParenthesis hopen hclose)]
      exact ih h

/-! ## The scan accepts the grammar -/

theorem closes_filter (depth : Nat) (text : List Char) :
    closes depth (text.filter isParenthesis) = closes depth text := by
  induction depth, text using closes.induct with
  | case1 depth => rfl
  | case2 depth rest ih => rw [List.filter_cons_of_pos rfl, closes_open, closes_open, ih]
  | case3 rest => rw [List.filter_cons_of_pos rfl, closes_close_zero, closes_close_zero]
  | case4 rest depth _ ih => rw [List.filter_cons_of_pos rfl, closes_close, closes_close, ih]
  | case5 depth c rest hopen hclose ih =>
      rw [List.filter_cons_of_neg (not_isParenthesis hopen hclose), ih, closes_other hopen hclose]

theorem Paired.isBalanced {text : List Char} (h : Paired text) : isBalanced text = true := by
  induction h with
  | nil => rfl
  | @pair inside rest _ _ ihinside ihrest =>
      have hclose : closes 1 (inside ++ ')' :: rest) = closes 1 (')' :: rest) :=
        closes_append 1 _ ihinside
      rw [Text.isBalanced, List.cons_append, closes_open, hclose, closes_close]
      exact ihrest

/-- Balanced are just the texts whose parentheses, with all else left out, the grammar generates:
nothing, or a pair around one such text and then another. The formula of every sentence is balanced. -/
theorem isBalanced_exact :
    (∀ text : List Char, isBalanced text = true ↔ Paired (text.filter isParenthesis)) ∧
    ∀ p : Sentence, isBalanced p.formula.toList = true := by
  refine ⟨fun text => ⟨fun h => pairedPast_of_closes h, fun h => ?_⟩, fun p => ?_⟩
  · have hfilter := h.isBalanced
    rwa [isBalanced, closes_filter] at hfilter
  · rw [Sentence.formula, String.toList_ofList]
    exact p.isBalanced_formulaChars

/-! ## Putting in parentheses -/

section

variable {text : List Char}

theorem isBalanced_of_isBare (h : isBare text = true) : isBalanced text = true :=
  (tight_of_isBare h).isBalanced

/-- A text in parentheses is bare as a group or not at all. -/
theorem isBare_enclosed_iff : isBare ('(' :: text ++ [')']) = true ↔ isBalanced text = true := by
  constructor
  · intro h
    rcases isBare_cons_iff.1 h with h | h | ⟨h, -⟩
    · exact absurd rfl (ne_of_isName h List.mem_cons_self (by decide : isReserved '(' = true))
    · obtain ⟨inside, heq, hinside⟩ := isGroup_iff.1 h
      rwa [List.append_cancel_right (List.cons.inj heq).2]
    · exact absurd h (by decide)
  · exact fun h => isBare_of_isGroup (isGroup_iff.2 ⟨text, rfl, h⟩)

theorem isBare_parenthesize_iff : isBare (parenthesize text) = true ↔ isBalanced text = true := by
  constructor
  · intro h
    rw [parenthesize] at h
    split at h
    · next hbare => exact isBalanced_of_isBare hbare
    · exact isBare_enclosed_iff.1 h
  · exact isBare_parenthesize

theorem parenthesize_eq_self_iff : parenthesize text = text ↔ isBare text = true := by
  constructor
  · intro h
    rw [parenthesize] at h
    split at h
    · next hbare => exact hbare
    · -- An enclosed text is longer.
      have hlength := congrArg List.length h
      rw [List.length_append, List.length_cons, List.length_singleton] at hlength
      omega
  · exact fun h => if_pos h

end

/-- To put parentheses around what has them already changes nothing just if the text was balanced
before. What is left as it is, is balanced, and what is balanced stays so. -/
theorem parenthesize_parenthesize_iff (text : List Char) :
    (parenthesize (parenthesize text) = parenthesize text ↔ isBalanced text = true) ∧
    (parenthesize text = text → isBalanced text = true) ∧
    (isBalanced text = true → isBalanced (parenthesize text) = true) := by
  refine ⟨?_, fun h => ?_, fun h => ?_⟩
  · rw [parenthesize_eq_self_iff, isBare_parenthesize_iff]
  · exact isBalanced_of_isBare (parenthesize_eq_self_iff.1 h)
  · exact isBalanced_of_isBare (isBare_parenthesize h)

/-- A text may be balanced by the parentheses around it. These make two pairs and no group. -/
example : isBalanced [')', '('] = false ∧ parenthesize [')', '('] = ['(', ')', '(', ')'] ∧
    isBalanced ['(', ')', '(', ')'] = true ∧ isGroup ['(', ')', '(', ')'] = false := by
  decide

end Consequence.Text
