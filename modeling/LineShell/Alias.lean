import LineShell.Table

/-! Aliases stand for the first word of a command. -/

namespace LineShell.Alias

def expandOnce (aliases : Table) (command : Text) : Option Text :=
  (aliases.get? (Text.firstWord command)).map (· ++ Text.afterFirstWord command)

/-- Replaces the first word, and once more the first word of what came out. A value that begins
with the word it stands for is not looked up again. -/
def expand (aliases : Table) (command : Text) : Text :=
  match expandOnce aliases command with
  | none => command
  | some once =>
    if Text.firstWord once = Text.firstWord command then once
    else (expandOnce aliases once).getD once

def format (name value : Text) : Text := name ++ "='".toList ++ value ++ "'".toList

end LineShell.Alias
