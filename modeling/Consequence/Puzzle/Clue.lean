import Consequence.Puzzle.Basic

/-!
# A game of Clue

An envelope holds some suspect, some room and some weapon, of three each. Cards in the hand, cards
shown by the others and a refuted guess rule out one after the other. That the envelope holds no
more than one of each is not said: when all suspects but one are ruled out that one is settled,
but settling one rules out none of the others.
-/

namespace Consequence.Puzzle.Clue

def colMustard : Sentence := named "ColMustard"
def profPlum : Sentence := named "ProfPlum"
def msScarlet : Sentence := named "MsScarlet"

def ballroom : Sentence := named "ballroom"
def kitchen : Sentence := named "kitchen"
def library : Sentence := named "library"

def knife : Sentence := named "knife"
def revolver : Sentence := named "revolver"
def wrench : Sentence := named "wrench"

def suspects : List Sentence := [colMustard, profPlum, msScarlet]
def rooms : List Sentence := [ballroom, kitchen, library]
def weapons : List Sentence := [knife, revolver, wrench]

end Clue

def clue : Puzzle where
  symbols := Clue.suspects ++ Clue.rooms ++ Clue.weapons
  stages :=
    [ { note := "Some suspect, in some room, with some weapon"
        sentences := [.disj Clue.suspects, .disj Clue.rooms, .disj Clue.weapons] },
      { note := "My cards"
        sentences := [.neg Clue.profPlum, .neg Clue.ballroom] },
      { note := "Cards shown to me"
        sentences := [.neg Clue.colMustard, .neg Clue.kitchen, .neg Clue.revolver] },
      { note := "A guess which was refuted"
        sentences := [.disj [.neg Clue.msScarlet, .neg Clue.library, .neg Clue.wrench]] } ]

end Consequence.Puzzle
