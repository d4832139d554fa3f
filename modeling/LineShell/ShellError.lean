import LineShell.Flags
import LineShell.Path
import LineShell.SystemError

/-! What keeps the shell from starting, or ends it early. -/

namespace LineShell

inductive ShellError
  | flags (cause : FlagError)
  | scriptOpen (script : Path) (cause : IoError)
  | io (cause : IoError)
  deriving DecidableEq, Repr

namespace ShellError

def message : ShellError → Text
  | flags cause => "Flag error: ".toList ++ cause.message
  | scriptOpen script _ => "Can't open ".toList ++ script.display
  | io cause => "IO error: ".toList ++ cause.message

def exitCode : ShellError → Int
  | flags _ => 2
  | scriptOpen _ cause => if cause = .system .noSuchFile then 127 else 126
  | io _ => 1

end ShellError

end LineShell
