import Consequence.Error
import Consequence.Text.Blank

/-!
# Names and symbols

A name is any text that can stand in a formula, and in the text of a model, without being taken
for something else. It is not empty and holds no blank, no parenthesis, no operator and no minus
sign, which marks a false symbol in the text of a model. Everything else is allowed: commas,
quotes, digits in front, letters of any script, and words such as `And`.

A symbol carries the proof that its name is one, so nothing behind `Symbol.ofName` checks again.
-/

namespace Consequence

/-- The characters beside the blanks that no name may hold. -/
def reserved : List Char :=
  ['(', ')', '¬', '∧', '∨', '=', '<', '>', '-']

def isReserved (c : Char) : Bool :=
  Text.isBlank c || reserved.contains c

/-- A text that may name a symbol. -/
def IsName (text : List Char) : Prop :=
  text ≠ [] ∧ text.all (!isReserved ·) = true

instance (text : List Char) : Decidable (IsName text) :=
  inferInstanceAs (Decidable (_ ∧ _))

/-- What keeps a text from being a name: it is empty, or else its first reserved character. -/
def nameFault? (text : List Char) : Option Error :=
  if text = [] then some .emptyName else (text.find? isReserved).map .reservedCharacter

theorem nameFault?_eq_none_iff {text : List Char} : nameFault? text = none ↔ IsName text := by
  unfold nameFault? IsName
  split
  · next h => simp [h]
  · next h => simp [h]

theorem IsName.append {s t : List Char} (hs : IsName s) (ht : IsName t) : IsName (s ++ t) := by
  refine ⟨by simp [hs.1], ?_⟩
  rw [List.all_append, hs.2, ht.2, Bool.and_self]

structure Symbol where
  name : String
  isName : IsName name.toList
deriving DecidableEq

namespace Symbol

theorem ext_name {s t : Symbol} (h : s.name = t.name) : s = t := by
  cases s
  cases t
  cases h
  rfl

def ofName (name : String) : Except Error Symbol :=
  match h : nameFault? name.toList with
  | some fault => .error fault
  | none => .ok ⟨name, nameFault?_eq_none_iff.1 h⟩

/-- Two names side by side are a name. -/
def append (s t : Symbol) : Symbol where
  name := s.name ++ t.name
  isName := by simpa using s.isName.append t.isName

end Symbol

end Consequence
