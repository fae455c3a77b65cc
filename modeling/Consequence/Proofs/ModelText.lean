import Consequence.Proofs.Balance
import Consequence.Proofs.Models

/-!
# Texts of models can be read back

The text of a model is a row of literals: each name in the order of the names, with a minus sign
in front where it is false. What is read back from the text is the row, by its blanks, and from
each literal a name and a value, by the minus sign or its absence. So the text of a model tells
all of the model (`text_eq_iff`), provided that the model keeps to names: of texts that are no
names one may hold a blank, one may begin with a minus sign, and one may be empty, and each of
these could be taken for something else.

The models that are listed for some knowledge value its symbols, which are names, so no two of them
have one text.
-/

namespace Consequence.Model

open Text

/-- The entry that a literal stands for. -/
def ofLiteral : List Char → String × Bool
  | '-' :: name => (String.ofList name, false)
  | name => (String.ofList name, true)

section

variable {entry : String × Bool}

theorem ofLiteral_literal (h : IsName entry.1.toList) : ofLiteral (literal entry) = entry := by
  obtain ⟨name, value⟩ := entry
  cases value with
  | false => simp [literal, ofLiteral]
  | true =>
      show ofLiteral name.toList = (name, true)
      unfold ofLiteral
      split
      · next rest heq =>
          have hmem : '-' ∈ name.toList := heq ▸ List.mem_cons_self
          exact absurd rfl (ne_of_isName h hmem (by decide))
      · rw [String.ofList_toList]

theorem tight_literal (h : IsName entry.1.toList) : Tight (literal entry) := by
  unfold literal
  split
  · exact tight_of_isName h
  · have hminus : Tight ['-'] := tight_of_forall (by simp)
    exact hminus.append (tight_of_isName h)

theorem literal_ne_nil (h : IsName entry.1.toList) : literal entry ≠ [] := by
  unfold literal
  split
  · exact h.1
  · exact List.cons_ne_nil _ _

end

/-- The names of a model are the first components of its entries. -/
theorem isName_of_mem_entries {m : Model} (h : ∀ n ∈ m.domain, IsName n.toList) :
    ∀ entry ∈ m.entries, IsName entry.1.toList :=
  fun _ hentry => h _ (List.mem_map_of_mem hentry)

theorem map_ofLiteral {m : Model} (h : ∀ n ∈ m.domain, IsName n.toList) :
    (m.entries.map literal).map ofLiteral = m.entries := by
  rw [List.map_map]
  refine (List.map_congr_left fun entry hentry => ?_).trans (List.map_id _)
  exact ofLiteral_literal (isName_of_mem_entries h entry hentry)

/-- From one text one model of names is read. -/
theorem eq_of_text_eq {m m' : Model} (h : ∀ n ∈ m.domain, IsName n.toList)
    (h' : ∀ n ∈ m'.domain, IsName n.toList) (htext : m.text = m'.text) : m = m' := by
  have hliterals : ∀ {m : Model}, (∀ n ∈ m.domain, IsName n.toList) →
      ∀ text ∈ m.entries.map literal, text ≠ [] ∧ Tight text := by
    intro m h text hmem
    obtain ⟨entry, hentry, rfl⟩ := List.mem_map.1 hmem
    have hname := isName_of_mem_entries h entry hentry
    exact ⟨literal_ne_nil hname, tight_literal hname⟩
  have hnone : Tight [] := tight_of_forall nofun
  have hrow : m.entries.map literal = m'.entries.map literal :=
    intercalate_inj hnone (hliterals h) (hliterals h') (String.ofList_inj.1 htext)
  have hentries : m.entries = m'.entries := by rw [← map_ofLiteral h, hrow, map_ofLiteral h']
  cases m
  cases m'
  cases hentries
  rfl

/-- The text of a model shows which names have a value and which value each of them has, if the
model values nothing but names. So the models that are listed for some knowledge have texts that
are all different. -/
theorem text_eq_iff :
    (∀ m m' : Model, (∀ n ∈ m.domain, IsName n.toList) → (∀ n ∈ m'.domain, IsName n.toList) →
      (m.text = m'.text ↔ m = m')) ∧
    ∀ knowledge : Sentence, ∃ ms, models knowledge = .ok ms ∧ (ms.map text).Nodup := by
  refine ⟨fun m m' h h' => ⟨eq_of_text_eq h h', congrArg text⟩, fun knowledge => ?_⟩
  refine ⟨_, models_eq knowledge, List.Nodup.map_on (fun m hm m' hm' => ?_) ?_⟩
  · have hnames : ∀ {m : Model}, m.domain = knowledge.symbols →
        ∀ n ∈ m.domain, IsName n.toList := by
      intro m hdomain n hn
      rw [hdomain, Sentence.mem_symbols] at hn
      exact hn.isName
    exact eq_of_text_eq (hnames (mem_models_iff.1 hm).1) (hnames (mem_models_iff.1 hm').1)
  · exact (nodup_extensions (nodup_of_pairwise_lt knowledge.symbols.sorted) .empty).filter _

/-- Here the two models value the same names, each name another way. -/
theorem text_eq_iff_signs :
    (∀ n ∈ ((empty.insert "p" true).insert "q" false).domain, IsName n.toList) ∧
    (∀ n ∈ ((empty.insert "p" false).insert "q" true).domain, IsName n.toList) ∧
    (((empty.insert "p" true).insert "q" false).text =
        ((empty.insert "p" false).insert "q" true).text ↔
      (empty.insert "p" true).insert "q" false = (empty.insert "p" false).insert "q" true) := by
  have hnames : ∀ n ∈ ["p", "q"], IsName n.toList := by decide
  exact ⟨hnames, hnames, text_eq_iff.1 _ _ hnames hnames⟩

/-- A text that is no name can be taken for a literal. -/
example : (empty.insert "-p" true).text = (empty.insert "p" false).text :=
  rfl

end Consequence.Model
