import Consequence.Puzzle.Basic

/-!
# Four students in four houses

Each of four students is in one house, and no two are in the same. The rules say so pair by
pair, for each student that one house excludes the others and that there is some house, and for
each house that one student excludes the others. Three clues then settle all of them.
-/

namespace Consequence.Puzzle.Houses

inductive Student where
  | gilderoy
  | minerva
  | pomona
  | horace
deriving DecidableEq

inductive House where
  | gryffindor
  | hufflepuff
  | ravenclaw
  | slytherin
deriving DecidableEq

def Student.all : List Student := [gilderoy, minerva, pomona, horace]

def House.all : List House := [gryffindor, hufflepuff, ravenclaw, slytherin]

def Student.symbol : Student → Symbol
  | gilderoy => ⟨"Gilderoy", by decide⟩
  | minerva => ⟨"Minerva", by decide⟩
  | pomona => ⟨"Pomona", by decide⟩
  | horace => ⟨"Horace", by decide⟩

def House.symbol : House → Symbol
  | gryffindor => ⟨"Gryffindor", by decide⟩
  | hufflepuff => ⟨"Hufflepuff", by decide⟩
  | ravenclaw => ⟨"Ravenclaw", by decide⟩
  | slytherin => ⟨"Slytherin", by decide⟩

/-- That the student is in the house: a symbol whose name is both names in a row. -/
def placed (student : Student) (house : House) : Sentence :=
  .symbol (student.symbol.append house.symbol)

/-- A student is in one house and in no other. -/
def studentRules (student : Student) : List Sentence :=
  (House.all.flatMap fun house =>
    (House.all.filter (· ≠ house)).map fun other =>
      .imp (placed student house) (.neg (placed student other)))
    ++ [.disj (House.all.map (placed student))]

/-- A house has no two of the students. -/
def houseRules (house : House) : List Sentence :=
  Student.all.flatMap fun student =>
    (Student.all.filter (· ≠ student)).map fun other =>
      .imp (placed student house) (.neg (placed other house))

end Houses

open Houses in
def houses : Puzzle where
  symbols := Student.all.flatMap fun student => House.all.map (placed student)
  stages :=
    [ { note := "Each student is in exactly one house, and no two students share a house"
        sentences := Student.all.flatMap studentRules ++ House.all.flatMap houseRules },
      { note := "Gilderoy is in Gryffindor or Ravenclaw"
        sentences := [.disj [placed .gilderoy .gryffindor, placed .gilderoy .ravenclaw]] },
      { note := "Pomona is not in Slytherin"
        sentences := [.neg (placed .pomona .slytherin)] },
      { note := "Minerva is in Gryffindor"
        sentences := [placed .minerva .gryffindor] } ]

end Consequence.Puzzle
