/-!
# Emphasis

How a line stands out on a terminal: control sequences before and after the text. Colours are
taken from the palette of 256, where 8 to 15 are the bright ones.
-/

namespace Consequence.Text

inductive Emphasis where
  | bold
  | red
  | green
  | yellow

/-- The control sequence with the given parameters. -/
def control (parameters : String) : String :=
  "\x1b[" ++ parameters ++ "m"

def Emphasis.start : Emphasis → String
  | bold => control "1"
  | red => control "38;5;9"
  | green => control "38;5;10"
  | yellow => control "38;5;11"

/-- Back to plain: all attributes after bold, the colour alone after a colour. -/
def Emphasis.stop : Emphasis → String
  | bold => control "0"
  | red | green | yellow => control "39"

def Emphasis.apply (e : Emphasis) (text : String) : String :=
  e.start ++ text ++ e.stop

end Consequence.Text
