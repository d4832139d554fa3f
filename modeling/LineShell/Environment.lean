import LineShell.Table

/-! The variables of a session, and the list of assignments made from them on demand. -/

namespace LineShell

inductive EnvironmentError
  | notFound (name : Text)
  | invalidName (name : Text)
  deriving DecidableEq, Repr

def EnvironmentError.message : EnvironmentError → Text
  | .notFound name => "Environment variable not found: ".toList ++ name
  | .invalidName name => "Invalid variable name: '".toList ++ name ++ "'".toList

structure Environment where
  vars : Table := {}
  flattened : List Text := []
  /-- Set by every change since the assignments were last asked for. -/
  changed : Bool := false
  deriving DecidableEq, Repr

namespace Environment

def isName (name : Text) : Bool := !name.isEmpty && !name.contains '='

def set (e : Environment) (name value : Text) : Except EnvironmentError Environment :=
  if isName name then .ok { e with vars := e.vars.insert name value, changed := true }
  else .error (.invalidName name)

def lookup (e : Environment) (name : Text) : Option Text := e.vars.get? name

def get (e : Environment) (name : Text) : Except EnvironmentError Text :=
  match e.lookup name with
  | some value => .ok value
  | none => .error (.notFound name)

def unset (e : Environment) (name : Text) : Bool × Environment :=
  if (e.lookup name).isSome then (true, { e with vars := e.vars.erase name, changed := true })
  else (false, e)

def setIfValid (e : Environment) (name value : Text) : Environment :=
  match e.set name value with
  | .ok e => e
  | .error _ => e

def ofPairs (pairs : List (Text × Text)) : Environment :=
  pairs.foldl (fun e p => e.setIfValid p.1 p.2) {}

/-- The name and the value in an entry of a process's environment. An equals sign at the very
start belongs to the name. -/
def binding? : Text → Option (Text × Text)
  | [] => none
  | c :: r => (Text.cutAt '=' r).map fun (name, value) => (c :: name, value)

def ofEntries (entries : List Text) : Environment := ofPairs (entries.filterMap binding?)

def assignment (e : Text × Text) : Text := e.1 ++ '=' :: e.2

def flatten (e : Environment) : List Text × Environment :=
  if e.changed || e.flattened.length != e.vars.size then
    let fresh := e.vars.entries.map assignment
    (fresh, { e with flattened := fresh, changed := false })
  else (e.flattened, e)

/-- Puts in the values of two variables, one after the other: first the home directory wherever
its reference occurs, then the search path, also where the first value has brought it in. -/
def expandValue (e : Environment) (value : Text) : Text :=
  ["HOME".toList, "PATH".toList].foldl
    (fun t name => Text.replace ('$' :: name) ((e.lookup name).getD []) t) value

end Environment

end LineShell
