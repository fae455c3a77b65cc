import Consequence.NameSet

/-!
# Valuations and models

A valuation is anything that answers, for a name, whether it is true, false, or not valued. A
model is a valuation that can be written down: a finite list of names with their values, sorted
by name and without a repeated name. As with sets of names the order is part of the type, so
models that value the same names alike are equal, whatever the order in which the values were
given; and of two values given to one name the later one counts.
-/

namespace Consequence

/-- The value of a name, or `none` where the name has no value. -/
abbrev Valuation := String → Option Bool

/-! ## Sorted lists of entries -/

/-- Gives a name a value in a list that is sorted by name. -/
def insertEntry (name : String) (value : Bool) : List (String × Bool) → List (String × Bool)
  | [] => [(name, value)]
  | entry :: rest =>
    if name = entry.1 then (name, value) :: rest
    else if name < entry.1 then (name, value) :: entry :: rest
    else entry :: insertEntry name value rest

theorem map_fst_insertEntry (name : String) (value : Bool) (entries : List (String × Bool)) :
    (insertEntry name value entries).map Prod.fst = insertName name (entries.map Prod.fst) := by
  induction entries with
  | nil => rfl
  | cons entry rest ih =>
      simp only [insertEntry, insertName, List.map_cons]
      split
      · rfl
      · split
        · rfl
        · rw [List.map_cons, ih]

theorem lookup_insertEntry (name n : String) (value : Bool) (entries : List (String × Bool)) :
    (insertEntry name value entries).lookup n =
      if n = name then some value else entries.lookup n := by
  induction entries with
  | nil =>
      unfold insertEntry
      split
      · next h => simp [h]
      · next h => rw [List.lookup_cons, beq_false_of_ne h]
  | cons entry rest ih =>
      unfold insertEntry
      split
      · next hname =>
          split
          · next h => simp [h]
          · next h =>
              rw [List.lookup_cons, List.lookup_cons, beq_false_of_ne h,
                beq_false_of_ne (hname ▸ h)]
      · next hname =>
          split
          · split
            · next h => simp [h]
            · next h => rw [List.lookup_cons, beq_false_of_ne h]
          · rw [List.lookup_cons, List.lookup_cons, ih]
            split
            · next h =>
                split
                · next h' => exact absurd (h'.symm.trans (eq_of_beq h)) hname
                · rfl
            · rfl

/-! ## The type -/

structure Model where
  entries : List (String × Bool)
  sorted : (entries.map Prod.fst).Pairwise (· < ·)
deriving DecidableEq

namespace Model

def empty : Model := ⟨[], NameSet.empty.sorted⟩

def insert (m : Model) (name : String) (value : Bool) : Model :=
  ⟨insertEntry name value m.entries,
    map_fst_insertEntry name value m.entries ▸ pairwise_insertName name m.sorted⟩

def ofList (pairs : List (String × Bool)) : Model :=
  pairs.foldl (fun m pair => m.insert pair.1 pair.2) empty

def value? (m : Model) : Valuation :=
  fun name => m.entries.lookup name

def size (m : Model) : Nat :=
  m.entries.length

/-- The names that the model gives a value. -/
def domain (m : Model) : NameSet :=
  ⟨m.entries.map Prod.fst, m.sorted⟩

@[simp] theorem value?_empty (n : String) : empty.value? n = none := rfl

@[simp] theorem value?_insert (m : Model) (name n : String) (value : Bool) :
    (m.insert name value).value? n = if n = name then some value else m.value? n :=
  lookup_insertEntry ..

/-! ## The text of a model -/

/-- A name as it stands where it is true, and after a minus sign where it is false. -/
def literal (entry : String × Bool) : List Char :=
  if entry.2 then entry.1.toList else '-' :: entry.1.toList

/-- The names in order, one blank between two of them. -/
def text (m : Model) : String :=
  String.ofList ([' '].intercalate (m.entries.map literal))

end Model

end Consequence
