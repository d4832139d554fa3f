import LineShell.Builtin.Variables
import LineShell.Text.Numeral

/-! The builtins that list the builtins and the history. -/

namespace LineShell.Builtin

variable {σ : Type}

def padTo (width : Nat) (t : Text) : Text := t ++ List.replicate (width - t.length) ' '

def overview : List Text :=
  "hsh builtins:".toList :: all.map fun b => "  ".toList ++ padTo 26 b.usage ++ b.description

def topic (b : Builtin) : List Text :=
  ["Usage: ".toList ++ b.usage, "    ".toList ++ b.description]

def runHelp (m : Machine σ) : List Text → Except CommandError Outcome × Machine σ
  | [] => sayAll m overview
  | name :: _ =>
    match named? name with
    | some b => sayAll m (topic b)
    | none => (.error (.noTopic name), m)

def historyLine (e : HistoryEntry) : Text := Text.ofNat e.index ++ ": ".toList ++ e.line

def listHistory (m : Machine σ) (count : Nat) : Except CommandError Outcome × Machine σ :=
  sayAll m ((m.session.history.recent count).map historyLine)

def runHistory (m : Machine σ) : List Text → Except CommandError Outcome × Machine σ
  | [] => listHistory m m.session.history.size
  | [numeral] =>
    match Numeral.read? Numeral.wordMax numeral with
    | some count => listHistory m count
    | none => (.error (.invalidCount numeral), m)
  | _ => (.error (.usage .history), m)

end LineShell.Builtin
