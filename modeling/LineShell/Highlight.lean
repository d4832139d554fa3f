import LineShell.Builtin.Basic

/-! Colours for what is typed. Blanks are copied as they are, so that nothing moves. -/

namespace LineShell

inductive Colour
  | red
  | green
  | yellow
  | magenta
  | cyan
  | grey
  deriving DecidableEq, Repr

def Colour.code : Colour → Text
  | red => "31".toList
  | green => "32".toList
  | yellow => "33".toList
  | magenta => "35".toList
  | cyan => "36".toList
  | grey => "38;2;128;128;128".toList

structure Style where
  colour : Colour
  bold : Bool := false
  deriving DecidableEq, Repr

namespace Style

def sequence (parameters : Text) : Text :=
  Char.ofNat 27 :: '[' :: (parameters ++ ['m'])

def paint (s : Style) (t : Text) : Text :=
  sequence s.colour.code ++ (if s.bold then sequence "1".toList else []) ++ t ++
    sequence "0".toList

def error : Style := { colour := .red, bold := true }

def hint : Style := { colour := .grey }

def operator : Style := { colour := .magenta }

def command (name : Text) : Style :=
  { colour := .cyan, bold := (Builtin.named? name).isSome }

def flag : Style := { colour := .yellow }

def reference : Style := { colour := .green }

end Style

namespace Highlight

def isOperator (word : Text) : Bool :=
  word == "&&".toList || word == "||".toList || word == ";".toList

def styleOf (isCommand : Bool) (word : Text) : Option Style × Bool :=
  if isOperator word then (some .operator, true)
  else if isCommand then (some (.command word), false)
  else if word.head? = some '-' then (some .flag, false)
  else if word.head? = some '$' then (some .reference, false)
  else (none, false)

def paintWord (isCommand : Bool) (word : Text) : Text × Bool :=
  if word.isEmpty then ([], isCommand)
  else
    match styleOf isCommand word with
    | (some s, next) => (s.paint word, next)
    | (none, next) => (word, next)

def paintFrom (isCommand : Bool) (word : Text) : Text → Text
  | [] => (paintWord isCommand word.reverse).1
  | c :: r =>
    if Text.isBlank c then
      let (shown, isCommand) := paintWord isCommand word.reverse
      shown ++ c :: paintFrom isCommand [] r
    else paintFrom isCommand (c :: word) r

def command (inColour : Bool) (t : Text) : Text := if inColour then paintFrom true [] t else t

def error (inColour : Bool) (t : Text) : Text := if inColour then Style.error.paint t else t

def hint (inColour : Bool) (t : Text) : Text := if inColour then Style.hint.paint t else t

end Highlight

end LineShell
