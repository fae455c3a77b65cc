import Consequence.Sentence.Formula

/-!
# Balance, and what stands outside all parentheses

Whether an operand gets parentheses is read off its text, so the printer is as sound as what a
scan of the text can tell. Two facts about the scan are all that is used of it. A text that
closes what it opens leaves the scan of what follows as it was, at any depth (`closes_append`);
and a text that closes more than it opens spoils whatever it is put in front of
(`closes_append_eq_false`).

A text is tight if it is balanced and no blank in it stands outside all parentheses. Bare texts
are tight (`tight_of_isBare`), so a text with a blank behind a balanced piece is never taken for
an operand. And tight texts are what a row of operands can be taken apart into: in front of a
blank, or of nothing, a tight text is found again whatever it is followed by
(`append_inj_of_tight`), and so a row of tight texts shows which texts these are
(`intercalate_inj`).
-/

namespace Consequence.Text

/-! ## The scan -/

theorem closes_open (depth : Nat) (rest : List Char) :
    closes depth ('(' :: rest) = closes (depth + 1) rest := by
  rw [closes.eq_def]
  exact if_pos rfl

theorem closes_close (depth : Nat) (rest : List Char) :
    closes (depth + 1) (')' :: rest) = closes depth rest := by
  rw [closes, if_neg (by decide), if_pos rfl]

theorem closes_close_zero (rest : List Char) : closes 0 (')' :: rest) = false := by
  rw [closes, if_neg (by decide), if_pos rfl]

theorem closes_other {c : Char} (hopen : c ≠ '(') (hclose : c ≠ ')') (depth : Nat)
    (rest : List Char) : closes depth (c :: rest) = closes depth rest := by
  rw [closes.eq_def]
  simp only [if_neg hopen, if_neg hclose]

/-- A text that closes some of the open parentheses leaves the others to what follows it. -/
theorem closes_append {depth : Nat} {text : List Char} (more : Nat) (rest : List Char)
    (h : closes depth text = true) : closes (depth + more) (text ++ rest) = closes more rest := by
  induction depth, text using closes.induct with
  | case1 depth =>
      have hdepth : depth = 0 := by simpa [closes] using h
      rw [hdepth, Nat.zero_add, List.nil_append]
  | case2 depth text ih =>
      rw [closes_open] at h
      rw [List.cons_append, closes_open, Nat.add_right_comm]
      exact ih h
  | case3 text =>
      rw [closes_close_zero] at h
      cases h
  | case4 text depth _ ih =>
      rw [closes_close] at h
      rw [List.cons_append, Nat.succ_add, closes_close]
      exact ih h
  | case5 depth c text hopen hclose ih =>
      rw [closes_other hopen hclose] at h
      rw [List.cons_append, closes_other hopen hclose]
      exact ih h

/-- A text that closes more parentheses than it opens is mended by nothing that follows it. -/
theorem closes_append_eq_false {depth : Nat} {text : List Char} (rest : List Char)
    (h : closes (depth + 1) text = true) : closes depth (text ++ rest) = false := by
  induction depth, text using closes.induct with
  | case1 depth => cases h
  | case2 depth text ih =>
      rw [closes_open] at h
      rw [List.cons_append, closes_open]
      exact ih h
  | case3 text => exact closes_close_zero _
  | case4 text depth _ ih =>
      rw [closes_close] at h
      rw [List.cons_append, closes_close]
      exact ih h
  | case5 depth c text hopen hclose ih =>
      rw [closes_other hopen hclose] at h
      rw [List.cons_append, closes_other hopen hclose]
      exact ih h

theorem isBalanced_append {text : List Char} (h : isBalanced text = true) (rest : List Char) :
    isBalanced (text ++ rest) = isBalanced rest :=
  closes_append 0 rest h

theorem isBalanced_group {text : List Char} (h : isBalanced text = true) :
    isBalanced ('(' :: text ++ [')']) = true := by
  rw [isBalanced, List.cons_append, closes_open]
  exact closes_append 1 [')'] h

/-- A text without parentheses is balanced. -/
theorem isBalanced_of_forall {text : List Char} (h : ∀ c ∈ text, c ≠ '(' ∧ c ≠ ')') :
    isBalanced text = true := by
  induction text with
  | nil => rfl
  | cons c text ih =>
      obtain ⟨hopen, hclose⟩ := h c List.mem_cons_self
      rw [isBalanced, closes_other hopen hclose]
      exact ih fun d hd => h d (List.mem_cons_of_mem c hd)

theorem isGroup_iff {text : List Char} :
    isGroup text = true ↔ ∃ inside, text = '(' :: inside ++ [')'] ∧ isBalanced inside = true := by
  constructor
  · intro h
    unfold isGroup at h
    split at h
    · next rest =>
        rw [Bool.and_eq_true, beq_iff_eq, List.getLast?_eq_some_iff] at h
        obtain ⟨⟨inside, rfl⟩, hinside⟩ := h
        rw [List.dropLast_concat] at hinside
        exact ⟨inside, rfl, hinside⟩
    · cases h
  · rintro ⟨inside, rfl, h⟩
    rw [List.cons_append, isGroup, List.getLast?_concat, List.dropLast_concat, h]
    rfl

/-! ## Tight texts -/

/-- The text is balanced and no blank in it stands outside all parentheses: what stands before
a blank does not balance. -/
structure Tight (text : List Char) : Prop where
  isBalanced : isBalanced text = true
  blank : ∀ before after, text = before ++ ' ' :: after → Text.isBalanced before = false

theorem tight_of_forall {text : List Char} (h : ∀ c ∈ text, c ≠ '(' ∧ c ≠ ')' ∧ c ≠ ' ') :
    Tight text where
  isBalanced := isBalanced_of_forall fun c hc => ⟨(h c hc).1, (h c hc).2.1⟩
  blank before after heq := by
    have hmem : ' ' ∈ text := heq ▸ List.mem_append_right before List.mem_cons_self
    exact absurd rfl (h ' ' hmem).2.2

/-- Inside a group every blank stands between the outer parentheses. -/
theorem tight_group {text : List Char} (h : isBalanced text = true) :
    Tight ('(' :: text ++ [')']) where
  isBalanced := isBalanced_group h
  blank before after heq := by
    cases before with
    | nil => exact absurd (List.cons.inj heq).1 (by decide)
    | cons c before =>
        rw [List.cons_append, List.cons_append] at heq
        obtain ⟨rfl, hrest⟩ := List.cons.inj heq
        have htext : text = before ++ (' ' :: after).dropLast := by
          rw [← List.dropLast_append_cons, ← hrest, List.dropLast_concat]
        rw [Text.isBalanced, closes_open, ← Bool.not_eq_true]
        intro hbefore
        have hfalse := closes_append_eq_false (' ' :: after).dropLast hbefore
        rw [← htext] at hfalse
        rw [Text.isBalanced, hfalse] at h
        cases h

theorem Tight.neg {text : List Char} (h : Tight text) : Tight ('¬' :: text) where
  isBalanced := by
    rw [Text.isBalanced, closes_other (by decide) (by decide)]
    exact h.isBalanced
  blank before after heq := by
    cases before with
    | nil => exact absurd (List.cons.inj heq).1 (by decide)
    | cons c before =>
        rw [List.cons_append] at heq
        obtain ⟨rfl, hrest⟩ := List.cons.inj heq
        rw [Text.isBalanced, closes_other (by decide) (by decide)]
        exact h.blank before after hrest

/-- Of two tight texts, each followed by a blank or by nothing, neither goes on where the other
ends: from the same text the same tight text is read. -/
theorem append_inj_of_tight {text text' rest rest' : List Char} (h : Tight text)
    (h' : Tight text') (hrest : rest = [] ∨ ∃ more, rest = ' ' :: more)
    (hrest' : rest' = [] ∨ ∃ more, rest' = ' ' :: more) (heq : text ++ rest = text' ++ rest') :
    text = text' ∧ rest = rest' := by
  have hpiece : ∀ {t t' r r' piece : List Char}, isBalanced t = true → Tight t' →
      (r = [] ∨ ∃ more, r = ' ' :: more) → t' = t ++ piece → r = piece ++ r' → piece = [] := by
    intro t t' r r' piece ht ht' hr htext hr'
    cases piece with
    | nil => rfl
    | cons c piece =>
        rcases hr with rfl | ⟨more, rfl⟩
        · cases hr'
        · obtain ⟨rfl, -⟩ := List.cons.inj hr'
          rw [ht'.blank t piece htext] at ht
          cases ht
  rcases List.append_eq_append_iff.1 heq with ⟨piece, htext, hr⟩ | ⟨piece, htext, hr⟩
  · obtain rfl := hpiece h.isBalanced h' hrest htext hr
    exact ⟨by rw [htext, List.append_nil], hr⟩
  · obtain rfl := hpiece h'.isBalanced h hrest' htext hr
    exact ⟨by rw [htext, List.append_nil], hr.symm⟩

/-- A blank of the second text that stood outside all parentheses before would still do so. -/
theorem Tight.append {text text' : List Char} (h : Tight text) (h' : Tight text') :
    Tight (text ++ text') where
  isBalanced := by
    rw [isBalanced_append h.isBalanced]
    exact h'.isBalanced
  blank before after heq := by
    rcases List.append_eq_append_iff.1 heq with ⟨piece, rfl, hpiece⟩ | ⟨piece, htext, hpiece⟩
    · rw [isBalanced_append h.isBalanced]
      exact h'.blank piece after hpiece
    · cases piece with
      | nil =>
          -- The blank is the first character of the second text.
          have hbefore := h'.blank [] after hpiece.symm
          cases hbefore
      | cons c piece =>
          obtain ⟨rfl, -⟩ := List.cons.inj hpiece
          exact h.blank before piece htext

/-! ## Rows

Tight texts in a row, with a blank between two of them, and in front of the blank a tight mark.
The mark is part of no text: a text may end in what looks like one, and the texts are told apart by
the blanks alone. -/

theorem intercalate_cons_ne_nil {separator text : List Char} (h : text ≠ [])
    (texts : List (List Char)) : separator.intercalate (text :: texts) ≠ [] := by
  cases texts with
  | nil => rwa [List.intercalate_singleton]
  | cons next texts => simp [List.intercalate_cons_cons, h]

theorem intercalate_marked (mark text next : List Char) (texts : List (List Char)) :
    (mark ++ [' ']).intercalate (text :: next :: texts) =
      (text ++ mark) ++ ' ' :: (mark ++ [' ']).intercalate (next :: texts) := by
  simp [List.intercalate_cons_cons]

/-- A tight text is no row of two texts or more. -/
theorem Tight.ne_intercalate {mark text first next : List Char} (h : Tight text)
    (hmark : Tight mark) (hfirst : Tight first) (texts : List (List Char)) :
    text ≠ (mark ++ [' ']).intercalate (first :: next :: texts) := by
  intro heq
  rw [intercalate_marked] at heq
  have hbalanced := (hfirst.append hmark).isBalanced
  rw [h.blank _ _ heq] at hbalanced
  cases hbalanced

/-- From one row one list of texts is read. -/
theorem intercalate_inj {mark : List Char} (hmark : Tight mark) {texts texts' : List (List Char)}
    (h : ∀ text ∈ texts, text ≠ [] ∧ Tight text) (h' : ∀ text ∈ texts', text ≠ [] ∧ Tight text)
    (heq : (mark ++ [' ']).intercalate texts = (mark ++ [' ']).intercalate texts') :
    texts = texts' := by
  induction texts generalizing texts' with
  | nil =>
      cases texts' with
      | nil => rfl
      | cons text' texts' =>
          exact absurd heq.symm (intercalate_cons_ne_nil (h' text' List.mem_cons_self).1 _)
  | cons text texts ih =>
      obtain ⟨⟨hne, htext⟩, htexts⟩ := List.forall_mem_cons.1 h
      cases texts' with
      | nil => exact absurd heq (intercalate_cons_ne_nil hne _)
      | cons text' texts' =>
          obtain ⟨⟨-, htext'⟩, htexts'⟩ := List.forall_mem_cons.1 h'
          cases texts with
          | nil =>
              cases texts' with
              | nil => rw [List.intercalate_singleton, List.intercalate_singleton] at heq; rw [heq]
              | cons next' texts' =>
                  rw [List.intercalate_singleton] at heq
                  exact absurd heq (htext.ne_intercalate hmark htext' texts')
          | cons next texts =>
              cases texts' with
              | nil =>
                  rw [List.intercalate_singleton] at heq
                  exact absurd heq.symm (htext'.ne_intercalate hmark htext texts)
              | cons next' texts' =>
                  rw [intercalate_marked, intercalate_marked] at heq
                  obtain ⟨hfirst, hrest⟩ := append_inj_of_tight (htext.append hmark)
                    (htext'.append hmark) (.inr ⟨_, rfl⟩) (.inr ⟨_, rfl⟩) heq
                  rw [List.append_cancel_right hfirst,
                    ih htexts htexts' (List.cons.inj hrest).2]

/-! ## Names and bare texts -/

theorem ne_of_isName {text : List Char} (h : IsName text) {c r : Char} (hc : c ∈ text)
    (hr : isReserved r = true) : c ≠ r := by
  intro heq
  have hall := List.all_eq_true.1 h.2 c hc
  rw [heq, hr] at hall
  cases hall

theorem isBalanced_of_isName {text : List Char} (h : IsName text) : isBalanced text = true :=
  isBalanced_of_forall fun _ hc => ⟨ne_of_isName h hc (by decide), ne_of_isName h hc (by decide)⟩

theorem tight_of_isName {text : List Char} (h : IsName text) : Tight text :=
  tight_of_forall fun _ hc =>
    ⟨ne_of_isName h hc (by decide), ne_of_isName h hc (by decide), ne_of_isName h hc (by decide)⟩

/-- A text that is not empty is bare as a name, as a group, or as the negation of a bare text. -/
theorem isBare_cons_iff {c : Char} {rest : List Char} : isBare (c :: rest) = true ↔
    IsName (c :: rest) ∨ isGroup (c :: rest) = true ∨ c = '¬' ∧ isBare rest = true := by
  rw [isBare, Bool.or_eq_true, Bool.or_eq_true, decide_eq_true_eq, Bool.and_eq_true, beq_iff_eq,
    or_assoc]

/-- A bare text is tight. -/
theorem tight_of_isBare {text : List Char} (h : isBare text = true) : Tight text := by
  induction text with
  | nil => exact tight_of_forall nofun
  | cons c rest ih =>
      rcases isBare_cons_iff.1 h with h | h | ⟨rfl, h⟩
      · exact tight_of_isName h
      · obtain ⟨inside, hinside, hbalanced⟩ := isGroup_iff.1 h
        rw [hinside]
        exact tight_group hbalanced
      · exact (ih h).neg

end Consequence.Text
