import LineShell.Builtin.Basic
import LineShell.Environment
import LineShell.SystemError

/-! How a builtin ends: with a status, by ending the session, or with an error. -/

namespace LineShell

inductive Outcome
  | status (value : Int)
  | exit (value : Int)
  deriving DecidableEq, Repr

inductive CommandError
  | usage (builtin : Builtin)
  | noTopic (name : Text)
  | invalidCount (numeral : Text)
  | illegalNumber (numeral : Text)
  | cdFailed (target : Text)
  | noOldPwd
  | environment (cause : EnvironmentError)
  | io (cause : IoError)
  deriving DecidableEq, Repr

namespace CommandError

def message : CommandError → Text
  | usage b => "Usage: ".toList ++ b.usage
  | noTopic name => "no help topics match '".toList ++ name ++ "'".toList
  | invalidCount numeral => "Invalid count: ".toList ++ numeral
  | illegalNumber numeral => "Illegal number: ".toList ++ numeral
  | cdFailed target => "can't cd to ".toList ++ target
  | noOldPwd => "OLDPWD not set".toList
  | environment cause => cause.message
  | io cause => "IO error: ".toList ++ cause.message

def status : CommandError → Int
  | illegalNumber _ => 2
  | cdFailed _ => 2
  | _ => 1

end CommandError

end LineShell
