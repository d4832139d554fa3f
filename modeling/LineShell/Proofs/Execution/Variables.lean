import LineShell.Proofs.Execution.Holdings
import LineShell.Startup.Directive

/-! The variables of a session, from the pairs that it was started with. All that a session does to
them is in a log, and the log decides what builtins list and what children are given. -/

namespace LineShell

open Environment (Operation)

def Directive.operations (e : Environment) : Directive → List Operation
  | .alias _ _ => []
  | .setenv name value => [.set name (e.expandValue value)]

def Directive.allOperations (e : Environment) : List Directive → List Operation
  | [] => []
  | d :: later => d.operations e ++ allOperations (e.run (d.operations e)) later

theorem Directive.environment_apply (s : Session) (d : Directive) :
    (d.apply s).environment = s.environment.run (d.operations s.environment) := by
  cases d <;> rfl

theorem Session.environment_applyDirectives (s : Session) (ds : List Directive) :
    (s.applyDirectives ds).environment =
      s.environment.run (Directive.allOperations s.environment ds) := by
  induction ds generalizing s with
  | nil => rfl
  | cons d later ih =>
    rw [Directive.allOperations, Environment.run_append, ← Directive.environment_apply, ← ih]
    rfl

namespace Machine

variable {σ : Type}

theorem environment_run (host : Host σ) (m : Machine σ) (b : Builtin) (args : List Text) :
    (b.run host m args).2.session.environment =
      m.session.environment.run (b.operations host m args) := by
  obtain ⟨given, -, h⟩ := Builtin.holdings_handle host (m.record (.call b args)) args b
  exact congrArg Holdings.environment h

theorem environment_runLine (host : Host σ) (m : Machine σ) (line : Text) :
    ∃ ops, (m.runLine host line).2.session.environment = m.session.environment.run ops := by
  obtain ⟨ops, given, -, h⟩ := leads_runLine host m line
  exact ⟨ops, congrArg Holdings.environment h⟩

/-- Whatever was done so far, the variables follow the log of it, and so they do after whatever
comes next. What a child is given is what the listed assignments say. -/
theorem variables_follow (host : Host σ) (m : Machine σ) (pairs : List (Text × Text))
    (ops : List Operation) (program : Path) (argv : List Text) :
    let start := Environment.ofPairs pairs
    let e := start.run ops
    let n := m.update fun s => { s with environment := e }
    Environment.Follows (pairs.map (fun p => .set p.1 p.2) ++ ops) e ∧
    (∀ b args, (Builtin.run host b n args).2.session.environment =
      start.run (ops ++ b.operations host n args)) ∧
    (∀ ds, (n.session.applyDirectives ds).environment =
      start.run (ops ++ Directive.allOperations e ds)) ∧
    (∀ line, ∃ more, (n.runLine host line).2.session.environment = start.run (ops ++ more)) ∧
    (n.spawn host program argv).2.past = .launch (n.request program argv) :: .flush :: m.past ∧
    (n.spawn host program argv).2.world = (host.launch (n.request program argv) m.world).2 ∧
    e.flatten.1.map (Text.cutAt '=') = (n.request program argv).environment.map some := by
  intro start e n
  have hfollows : Environment.Follows (pairs.map (fun p => .set p.1 p.2) ++ ops) e := by
    have h := Environment.follows_run (pairs.map (fun p => .set p.1 p.2) ++ ops)
    rwa [Environment.run_append, ← Environment.ofPairs_eq_run] at h
  obtain ⟨sink, hspawn⟩ := spawn_machine host n program argv
  refine ⟨hfollows, fun b args => ?_, fun ds => ?_, fun line => ?_, by rw [hspawn]; rfl,
    by rw [hspawn]; rfl, hfollows.pairs⟩
  · rw [environment_run, Environment.run_append]
    rfl
  · rw [Session.environment_applyDirectives, Environment.run_append]
    rfl
  · obtain ⟨more, h⟩ := environment_runLine host n line
    refine ⟨more, ?_⟩
    rw [h, Environment.run_append]
    rfl

end Machine

end LineShell
