import LineShell.Text.Basic

/-! A line is a chain of commands joined by and, or and sequence operators. There is no
precedence: a link looks only at the status that the links before it have left. -/

namespace LineShell

inductive Operator
  | first
  | and
  | or
  | seq
  deriving DecidableEq, Repr

def Operator.admits : Operator → Int → Bool
  | .first, _ => true
  | .seq, _ => true
  | .and, status => status == 0
  | .or, status => status != 0

structure Link where
  operator : Operator
  text : Text
  deriving DecidableEq, Repr

abbrev Chain := List Link

namespace Chain

def stripComment (line : Text) : Text := go true line
where
  /-- The flag tells whether the character before was a blank or missing. -/
  go : Bool → Text → Text
    | _, [] => []
    | afterBlank, c :: r =>
      if c = '#' ∧ afterBlank then [] else c :: go (Text.isBlank c) r

/-- The text up to the first operator, and every operator with the text up to the next one. Of
three ampersands or bars in a row the first two are the operator. -/
def split : Text → Text × List (Operator × Text)
  | [] => ([], [])
  | '&' :: '&' :: r => ([], (.and, (split r).1) :: (split r).2)
  | '|' :: '|' :: r => ([], (.or, (split r).1) :: (split r).2)
  | ';' :: r => ([], (.seq, (split r).1) :: (split r).2)
  | c :: r => (c :: (split r).1, (split r).2)

/-- The trimmed pieces; a piece that is all blank is dropped together with its operator. -/
def keep (pieces : List (Operator × Text)) : Chain :=
  (pieces.map fun p => Link.mk p.1 (Text.trim p.2)).filter fun link => !link.text.isEmpty

def markFirst : Chain → Chain
  | [] => []
  | link :: later => { link with operator := .first } :: later

def parse (line : Text) : Chain :=
  let pieces := split (stripComment line)
  markFirst (keep ((.first, pieces.1) :: pieces.2))

end Chain

end LineShell
