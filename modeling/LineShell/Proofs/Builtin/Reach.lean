import LineShell.Proofs.Builtin.Holdings
import LineShell.Proofs.Table.Without

/-! How far builtins reach: only `alias` gets at the aliases, only `cd` at the directory and at the
world around, and variables are safe unless `setenv`, `unsetenv` or `cd` is there for them. -/

namespace LineShell.Builtin

open Environment (Operation changes)

variable {σ : Type} {m n k : Machine σ}

def assigned (args : List Text) : Builtin → List Text
  | .setenv => args.take 1
  | .unsetenv => args
  | .cd => ["OLDPWD".toList, "PWD".toList]
  | .exit | .env | .help | .history | .alias => []

theorem name_of_set {name value : Text} {c : Table.Change}
    (h : (Operation.set name value).change? = some c) : c.name = name := by
  rw [Operation.change?] at h
  split at h
  · obtain rfl := Option.some.inj h
    rfl
  · cases h

theorem mem_cdOperations {host : Host σ} {args : List Text} {op : Operation}
    (h : op ∈ cdOperations host m args) :
    ∃ name ∈ ["OLDPWD".toList, "PWD".toList], ∃ value, op = .set name value := by
  unfold cdOperations at h
  split at h
  · exact absurd h List.not_mem_nil
  · split at h
    · exact absurd h List.not_mem_nil
    · rcases List.mem_cons.1 h with rfl | h
      · exact ⟨_, List.mem_cons_self, _, rfl⟩
      · obtain rfl := List.mem_singleton.1 h
        exact ⟨_, List.mem_cons_of_mem _ List.mem_cons_self, _, rfl⟩

theorem mem_assigned (host : Host σ) (m : Machine σ) (args : List Text) (b : Builtin) :
    ∀ c ∈ changes (b.operations host m args), c.name ∈ b.assigned args := by
  intro c hc
  obtain ⟨op, hop, hchange⟩ := List.mem_filterMap.1 hc
  cases b with
  | setenv =>
    rcases args with _ | ⟨name, _ | ⟨value, _ | ⟨_, _⟩⟩⟩
    · exact absurd hop List.not_mem_nil
    · exact absurd hop List.not_mem_nil
    · obtain rfl := List.mem_singleton.1 hop
      rw [name_of_set hchange]
      exact List.mem_cons_self
    · exact absurd hop List.not_mem_nil
  | unsetenv =>
    obtain ⟨name, hname, rfl⟩ := List.mem_map.1 hop
    obtain rfl := Option.some.inj hchange
    exact hname
  | cd =>
    obtain ⟨name, hname, value, rfl⟩ := mem_cdOperations hop
    rw [name_of_set hchange]
    exact hname
  | env =>
    cases args with
    | nil =>
      obtain rfl := List.mem_singleton.1 hop
      exact nomatch hchange
    | cons _ _ => exact absurd hop List.not_mem_nil
  | exit => exact absurd hop List.not_mem_nil
  | help => exact absurd hop List.not_mem_nil
  | history => exact absurd hop List.not_mem_nil
  | «alias» => exact absurd hop List.not_mem_nil

theorem without_handle (host : Host σ) (m : Machine σ) (args : List Text) (b : Builtin) :
    (b.handle host m args).2.session.environment.vars.without (b.assigned args) =
      m.session.environment.vars.without (b.assigned args) := by
  obtain ⟨given, -, h⟩ := holdings_handle host m args b
  have henvironment : (b.handle host m args).2.session.environment =
      m.session.environment.run (b.operations host m args) := congrArg Holdings.environment h
  rw [henvironment, Environment.vars_run,
    Table.without_foldl_apply (mem_assigned host m args b)]

theorem aliases_handle (host : Host σ) (m : Machine σ) (args : List Text) {b : Builtin}
    (hb : b ≠ .alias) : (b.handle host m args).2.session.aliases = m.session.aliases := by
  cases b with
  | exit => rw [handle, runExit_machine]
  | env =>
    cases args with
    | nil => exact congrArg Holdings.aliases (holdings_runEnv m)
    | cons _ _ => rfl
  | setenv =>
    rcases args with _ | ⟨name, _ | ⟨value, _ | ⟨_, _⟩⟩⟩
    · rfl
    · rfl
    · exact congrArg Holdings.aliases (holdings_runSetenv m name value)
    · rfl
  | unsetenv => cases args <;> rfl
  | cd => exact congrArg Holdings.aliases (holdings_runCd host m args)
  | help => exact congrArg Holdings.aliases (holdings_runHelp m args)
  | history => exact congrArg Holdings.aliases (holdings_runHistory m args)
  | «alias» => exact absurd rfl hb

structure Stays (m n : Machine σ) : Prop where
  directory : n.session.directory = m.session.directory
  world : n.world = m.world

theorem Stays.refl (m : Machine σ) : Stays m m := ⟨rfl, rfl⟩

theorem Stays.trans (h : Stays m n) (h' : Stays n k) : Stays m k :=
  ⟨h'.directory.trans h.directory, h'.world.trans h.world⟩

theorem lasting_stays : Lasting (σ := σ) Stays where
  refl := Stays.refl
  trans := Stays.trans
  print m t := by
    unfold Machine.print
    split <;> exact ⟨rfl, rfl⟩
  report _ _ _ := ⟨rfl, rfl⟩
  environment _ _ := ⟨rfl, rfl⟩
  aliases _ _ := ⟨rfl, rfl⟩

theorem stays_handle (host : Host σ) (m : Machine σ) (args : List Text) {b : Builtin}
    (hb : b ≠ .cd) : Stays m (b.handle host m args).2 :=
  led_handle lasting_stays host m args fun h => absurd h hb

end LineShell.Builtin
