import LineShell.Alias
import LineShell.Builtin.Variables

/-! The builtin that lists, shows, sets and removes aliases. -/

namespace LineShell.Builtin

variable {σ : Type}

def aliasLines (aliases : Table) : List Text :=
  aliases.entries.map fun e => Alias.format e.1 e.2

/-- Gives a name a value, from which one pair of quotes is taken. To give it nothing removes it. -/
def setAlias (aliases : Table) (name value : Text) : Table :=
  let value := Text.stripQuotes value
  if value.isEmpty then (aliases.remove name).2 else aliases.insert name value

def applyAlias (m : Machine σ) (arg : Text) : Except CommandError Bool × Machine σ :=
  match Text.cutAt '=' arg with
  | some (name, value) =>
    if name.isEmpty then
      (.ok false, m.update (·.report "alias".toList (arg ++ ": invalid alias name".toList)))
    else (.ok true, m.update fun s => { s with aliases := setAlias s.aliases name value })
  | none =>
    match m.session.aliases.get? arg with
    | some value =>
      match say m [Alias.format arg value] with
      | (.ok (), m) => (.ok true, m)
      | (.error e, m) => (.error e, m)
    | none => (.ok false, m.update (·.report "alias".toList (arg ++ " not found".toList)))

def applyAliases (status : Int) (m : Machine σ) :
    List Text → Except CommandError Outcome × Machine σ
  | [] => (.ok (.status status), m)
  | arg :: later =>
    match applyAlias m arg with
    | (.error e, m) => (.error e, m)
    | (.ok good, m) => applyAliases (if good then status else 1) m later

def runAlias (m : Machine σ) : List Text → Except CommandError Outcome × Machine σ
  | [] => sayAll m (aliasLines m.session.aliases)
  | args => applyAliases 0 m args

end LineShell.Builtin
