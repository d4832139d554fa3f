import LineShell.Alias
import LineShell.Environment

/-! Substitution in a command: its alias first, then references to variables in one pass. -/

namespace LineShell

structure Expander where
  aliases : Table
  environment : Environment
  status : Int
  pid : Nat

namespace Expander

inductive Place
  | plain
  | dollar
  /-- What has been read of the name, backwards. -/
  | name (read : Text)
  deriving DecidableEq, Repr

def value (x : Expander) (name : Text) : Text := (x.environment.lookup name).getD []

def startAt (c : Char) : Text × Place :=
  if c = '$' then ([], .dollar) else ([c], .plain)

def step (x : Expander) : Place → Char → Text × Place
  | .plain, c => startAt c
  | .dollar, c =>
    if c = '?' then (Text.ofInt x.status, .plain)
    else if c = '$' then (Text.ofNat x.pid, .plain)
    else if Text.isNameChar c then ([], .name [c])
    else (['$', c], .plain)
  | .name read, c =>
    if Text.isNameChar c then ([], .name (c :: read))
    else (x.value read.reverse ++ (startAt c).1, (startAt c).2)

def expandFrom (x : Expander) : Place → Text → Text
  | .plain, [] => []
  | .dollar, [] => ['$']
  | .name read, [] => x.value read.reverse
  | place, c :: r => (x.step place c).1 ++ x.expandFrom (x.step place c).2 r

/-- Replaces the references to the status, the process and the variables. A value is never read
again, an unset variable is empty, and a dollar sign before anything else stands for itself. -/
def expandVariables (x : Expander) (t : Text) : Text := x.expandFrom .plain t

def expand (x : Expander) (command : Text) : Text :=
  x.expandVariables (Alias.expand x.aliases command)

end Expander

end LineShell
