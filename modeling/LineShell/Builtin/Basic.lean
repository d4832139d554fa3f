import LineShell.Text.Basic

/-! The commands that the shell carries out itself, and how help describes them. -/

namespace LineShell

inductive Builtin
  | exit
  | env
  | setenv
  | unsetenv
  | cd
  | help
  | history
  | alias
  deriving DecidableEq, Repr

namespace Builtin

def all : List Builtin := [.exit, .env, .setenv, .unsetenv, .cd, .help, .history, .alias]

def name : Builtin → Text
  | .exit => "exit".toList
  | .env => "env".toList
  | .setenv => "setenv".toList
  | .unsetenv => "unsetenv".toList
  | .cd => "cd".toList
  | .help => "help".toList
  | .history => "history".toList
  | .alias => "alias".toList

def usage : Builtin → Text
  | .exit => "exit [status]".toList
  | .env => "env".toList
  | .setenv => "setenv NAME VALUE".toList
  | .unsetenv => "unsetenv NAME...".toList
  | .cd => "cd [dir | -]".toList
  | .help => "help [builtin]".toList
  | .history => "history [count]".toList
  | .alias => "alias [name[=value] ...]".toList

def description : Builtin → Text
  | .exit => "Leave the shell with status, or the last status if omitted.".toList
  | .env => "Print the environment, one NAME=VALUE per line.".toList
  | .setenv => "Create or overwrite an environment variable.".toList
  | .unsetenv => "Remove environment variables.".toList
  | .cd => "Change directory to dir, the previous directory (-), or HOME.".toList
  | .help => "Show usage for all builtins or a single one.".toList
  | .history => "List history entries, optionally only the last count.".toList
  | .alias => "List, show, or define aliases.".toList

def named? (name : Text) : Option Builtin := all.find? fun b => b.name == name

theorem mem_all (b : Builtin) : b ∈ all := by
  cases b <;> decide

theorem named?_eq_none_iff {name : Text} : named? name = none ↔ ∀ b : Builtin, b.name ≠ name := by
  rw [named?, List.find?_eq_none]
  exact ⟨fun h b hb => h b (mem_all b) (beq_iff_eq.2 hb), fun h b _ hb => h b (beq_iff_eq.1 hb)⟩

end Builtin

end LineShell
