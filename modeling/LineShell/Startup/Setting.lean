import LineShell.Text.Numeral

/-! Lines of the startup file. Each is read on its own, and a bad one spoils only itself. -/

namespace LineShell

inductive Directive
  | alias (name value : Text)
  | setenv (name value : Text)
  deriving DecidableEq, Repr

inductive Setting
  | nothing
  | directive (d : Directive)
  | bound (entries : Nat)
  deriving DecidableEq, Repr

inductive SettingError
  | exportShape (text : Text)
  | aliasShape (text : Text)
  | setenvShape
  | bound (numeral : Text)
  deriving DecidableEq, Repr

def SettingError.message : SettingError → Text
  | exportShape text => "expected NAME=value, got '".toList ++ text ++ "'".toList
  | aliasShape text => "expected name=value, got '".toList ++ text ++ "'".toList
  | setenvShape => "setenv takes exactly NAME VALUE".toList
  | bound numeral => "invalid histsize '".toList ++ numeral ++ "'".toList

namespace Setting

def definition? (t : Text) : Option (Text × Text) :=
  (Text.cutAt '=' t).map fun (name, value) =>
    (Text.trim name, Text.stripQuotes (Text.trim value))

def ofExport (t : Text) : Except SettingError Setting :=
  match definition? t with
  | some (name, value) => .ok (.directive (.setenv name value))
  | none => .error (.exportShape (Text.trim t))

def ofAlias (t : Text) : Except SettingError Setting :=
  match definition? t with
  | some (name, value) => .ok (.directive (.alias name value))
  | none => .error (.aliasShape (Text.trim t))

def ofSetenv (t : Text) : Except SettingError Setting :=
  match Text.words t with
  | [name, value] => .ok (.directive (.setenv name value))
  | _ => .error .setenvShape

def ofHistsize (t : Text) : Except SettingError Setting :=
  match Numeral.read? Numeral.wordMax (Text.trim t) with
  | some n => .ok (.bound n)
  | none => .error (.bound (Text.trim t))

/-- The words that begin a directive. Exactly one space belongs to them. -/
def readers : List (Text × (Text → Except SettingError Setting)) :=
  [("export ".toList, ofExport), ("setenv ".toList, ofSetenv), ("alias ".toList, ofAlias),
    ("histsize ".toList, ofHistsize)]

def parse (line : Text) : Except SettingError Setting :=
  let line := Text.trim line
  match readers.find? fun r => r.1.isPrefixOf line with
  | some (word, reader) => reader (line.drop word.length)
  | none => .ok .nothing

end Setting

end LineShell
