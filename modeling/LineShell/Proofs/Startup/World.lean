import LineShell.Proofs.Execution.World
import LineShell.Startup.Boot

/-! Where the world gets to while a shell comes up. It is only asked then, and nothing is written or
launched. -/

namespace LineShell

variable {σ : Type} {host : Host σ} {R : σ → σ → Prop}

namespace Boot

end Boot

end LineShell
