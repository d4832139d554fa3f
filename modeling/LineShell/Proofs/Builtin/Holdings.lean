import LineShell.Proofs.Builtin.Frame
import LineShell.Proofs.Environment.Log

/-! What builtins do to the variables and to the aliases. The variables only meet operations that
can be told beforehand; the aliases only meet the definitions that `alias` is given. -/

namespace LineShell

structure Holdings where
  environment : Environment
  aliases : Table

def Session.holdings (s : Session) : Holdings := ⟨s.environment, s.aliases⟩

namespace Builtin

open Environment (Operation)

variable {σ : Type}

def cdOperations (host : Host σ) (m : Machine σ) (args : List Text) : List Operation :=
  match cdTarget m.session.environment args with
  | .error _ => []
  | .ok (target, _) =>
    match (destination host m.session.directory target m.world).1 with
    | none => []
    | some arrived =>
      [.set "OLDPWD".toList m.session.directory.display, .set "PWD".toList arrived.display]

def operations (host : Host σ) (m : Machine σ) (args : List Text) : Builtin → List Operation
  | .env =>
    match args with
    | [] => [.flatten]
    | _ :: _ => []
  | .setenv =>
    match args with
    | [name, value] => [.set name value]
    | _ => []
  | .unsetenv => args.map .unset
  | .cd => cdOperations host m args
  | .exit | .help | .history | .alias => []

def define (aliases : Table) (arg : Text) : Table :=
  match Text.cutAt '=' arg with
  | some (name, value) => if name.isEmpty then aliases else setAlias aliases name value
  | none => aliases

theorem holdings_print (m : Machine σ) (t : Text) :
    (m.print t).2.session.holdings = m.session.holdings := by
  unfold Machine.print
  split <;> rfl

theorem holdings_say (m : Machine σ) (lines : List Text) :
    (say m lines).2.session.holdings = m.session.holdings := by
  rw [say_machine, holdings_print]

theorem holdings_sayAll (m : Machine σ) (lines : List Text) :
    (sayAll m lines).2.session.holdings = m.session.holdings := by
  rw [sayAll_machine, holdings_print]

theorem assign_machine (m : Machine σ) (name value : Text) :
    (assign m name value).2 =
      m.update fun s => { s with environment := s.environment.setIfValid name value } := by
  cases h : m.session.environment.set name value <;>
    simp only [assign, Machine.update, Environment.setIfValid, h]

theorem assign_of_valid {name : Text} (h : name ≠ [] ∧ '=' ∉ name) (m : Machine σ) (value : Text) :
    (assign m name value).1 = .ok () := by
  rw [assign, Environment.set_of_valid h]

theorem holdings_runEnv (m : Machine σ) :
    (runEnv m []).2.session.holdings =
      { m.session.holdings with environment := m.session.environment.flatten.2 } :=
  holdings_sayAll _ _

theorem holdings_runSetenv (m : Machine σ) (name value : Text) :
    (runSetenv m [name, value]).2.session.holdings =
      { m.session.holdings with
        environment := m.session.environment.setIfValid name value } := by
  have h : (assign m name value).2.session.holdings = _ :=
    congrArg (·.session.holdings) (assign_machine m name value)
  simp only [runSetenv]
  split <;> rename_i hassign <;> rw [hassign] at h <;> exact h

theorem unsetAll_eq_run (e : Environment) (names : List Text) :
    unsetAll e names = e.run (names.map .unset) := by
  rw [unsetAll, Environment.run, List.foldl_map]
  rfl

theorem move_eq (m : Machine σ) (arrived : Path) :
    move m arrived =
      (.ok (), m.update fun s =>
        { s with
          environment := s.environment.run
            [.set "OLDPWD".toList s.directory.display, .set "PWD".toList arrived.display]
          directory := arrived }) := by
  have hassign {name : Text} (h : name ≠ [] ∧ '=' ∉ name) (n : Machine σ) (value : Text) :
      assign n name value =
        (.ok (), n.update fun s =>
          { s with environment := s.environment.setIfValid name value }) :=
    Prod.ext (assign_of_valid h n value) (assign_machine n name value)
  have hold : "OLDPWD".toList ≠ [] ∧ '=' ∉ "OLDPWD".toList := by decide
  have hnew : "PWD".toList ≠ [] ∧ '=' ∉ "PWD".toList := by decide
  simp only [move, hassign hold, hassign hnew]
  rfl

theorem holdings_runCd (host : Host σ) (m : Machine σ) (args : List Text) :
    (runCd host m args).2.session.holdings =
      { m.session.holdings with
        environment := m.session.environment.run (cdOperations host m args) } := by
  rcases htarget : cdTarget m.session.environment args with e | ⟨target, echo⟩
  · simp only [runCd, cdOperations, htarget]
    rfl
  · rcases hdestination : destination host m.session.directory target m.world with ⟨_ | arrived, w⟩
    · simp only [runCd, cdOperations, htarget, Machine.ask, hdestination]
      rfl
    · simp only [runCd, cdOperations, htarget, Machine.ask, hdestination, move_eq]
      exact holdings_sayAll _ _

theorem holdings_runHelp (m : Machine σ) (args : List Text) :
    (runHelp m args).2.session.holdings = m.session.holdings := by
  unfold runHelp
  split
  · exact holdings_sayAll m _
  · split
    · exact holdings_sayAll m _
    · rfl

theorem holdings_runHistory (m : Machine σ) (args : List Text) :
    (runHistory m args).2.session.holdings = m.session.holdings := by
  unfold runHistory
  split
  · exact holdings_sayAll m _
  · split
    · exact holdings_sayAll m _
    · rfl
  · rfl

theorem holdings_applyAlias (m : Machine σ) (arg : Text) :
    (applyAlias m arg).2.session.holdings =
      { m.session.holdings with aliases := define m.session.aliases arg } := by
  rcases hcut : Text.cutAt '=' arg with _ | ⟨name, value⟩
  · simp only [applyAlias, define, hcut]
    split
    · next value _ =>
      have h := holdings_say m [Alias.format arg value]
      split <;> rename_i hsay <;> rw [hsay] at h <;> exact h
    · rfl
  · simp only [applyAlias, define, hcut]
    split <;> rfl

theorem holdings_applyAliases (status : Int) (m : Machine σ) (args : List Text) :
    ∃ given, given <+: args ∧ (applyAliases status m args).2.session.holdings =
      { m.session.holdings with aliases := given.foldl define m.session.aliases } := by
  induction args generalizing status m with
  | nil => exact ⟨[], List.prefix_rfl, rfl⟩
  | cons arg later ih =>
    have harg := holdings_applyAlias m arg
    rw [applyAliases]
    split <;> rename_i n happly <;> rw [happly] at harg
    · exact ⟨[arg], ⟨later, rfl⟩, harg⟩
    · next good =>
      obtain ⟨given, hgiven, h⟩ := ih (if good then status else 1) n
      refine ⟨arg :: given, List.cons_prefix_cons.2 ⟨rfl, hgiven⟩, ?_⟩
      rw [h, harg, List.foldl_cons]
      exact congrArg _ (congrArg (fun h : Holdings => given.foldl define h.aliases) harg)

theorem holdings_runAlias (m : Machine σ) (args : List Text) :
    ∃ given, given <+: args ∧ (runAlias m args).2.session.holdings =
      { m.session.holdings with aliases := given.foldl define m.session.aliases } := by
  cases args with
  | nil => exact ⟨[], List.prefix_rfl, holdings_sayAll m _⟩
  | cons arg later => exact holdings_applyAliases 0 m (arg :: later)

theorem holdings_handle (host : Host σ) (m : Machine σ) (args : List Text) (b : Builtin) :
    ∃ given, given <+: args ∧ (b.handle host m args).2.session.holdings =
      { environment := m.session.environment.run (b.operations host m args)
        aliases := given.foldl define m.session.aliases } := by
  have hnone : [] <+: args := List.nil_prefix
  cases b with
  | exit =>
    rw [handle, runExit_machine]
    exact ⟨[], hnone, rfl⟩
  | env =>
    cases args with
    | nil => exact ⟨[], hnone, holdings_runEnv m⟩
    | cons _ _ => exact ⟨[], hnone, rfl⟩
  | setenv =>
    rcases args with _ | ⟨name, _ | ⟨value, _ | ⟨_, _⟩⟩⟩
    · exact ⟨[], hnone, rfl⟩
    · exact ⟨[], hnone, rfl⟩
    · exact ⟨[], hnone, holdings_runSetenv m name value⟩
    · exact ⟨[], hnone, rfl⟩
  | unsetenv =>
    cases args with
    | nil => exact ⟨[], hnone, rfl⟩
    | cons name later =>
      refine ⟨[], hnone, ?_⟩
      rw [operations, ← unsetAll_eq_run]
      rfl
  | cd => exact ⟨[], hnone, holdings_runCd host m args⟩
  | help => exact ⟨[], hnone, holdings_runHelp m args⟩
  | history => exact ⟨[], hnone, holdings_runHistory m args⟩
  | «alias» => exact holdings_runAlias m args

end Builtin

end LineShell
