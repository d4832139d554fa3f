import LineShell.Text.Basic

/-! How a part of a pattern is read: what its flags say, and the blanks and comments in it. -/

namespace LineShell.Pattern

structure Mode where
  anyCase : Bool := false
  unicode : Bool := true
  spaced : Bool := false
  deriving DecidableEq, Repr

namespace Mode

def flagLetters : List Char := "imsUuRx".toList

def set (m : Mode) (flag : Char) (value : Bool) : Mode :=
  match flag with
  | 'i' => { m with anyCase := value }
  | 'u' => { m with unicode := value }
  | 'x' => { m with spaced := value }
  | _ => m

/-- Reads flags, after some that were seen, up to the colon or the parenthesis that ends them.
Those after the minus sign are turned off. Before a parenthesis there has to be at least one. -/
def readFlags (m : Mode) (seen : Text) (negated dangling : Bool) :
    Text → Option (Mode × Char × Text)
  | [] => none
  | c :: r =>
    if c = ':' ∨ c = ')' then
      if dangling || c == ')' && seen.isEmpty then none else some (m, c, r)
    else if c = '-' then
      if negated then none else m.readFlags seen true true r
    else if flagLetters.contains c && !seen.contains c then
      (m.set c !negated).readFlags (c :: seen) negated false r
    else none

def dropSpace (inComment : Bool) : Text → Text
  | [] => []
  | c :: r =>
    if inComment then dropSpace (c != '\n') r
    else if Text.isBlank c then dropSpace false r
    else if c = '#' then dropSpace true r
    else c :: r

def skip (m : Mode) (t : Text) : Text := if m.spaced then dropSpace false t else t

/-- The character that decides what a hyphen before a text means. It is looked for behind blanks
and one number sign, but a comment is not told from the rest. -/
def decisive? (m : Mode) (t : Text) : Option Char :=
  if m.spaced then
    let found := match t.dropWhile Text.isBlank with
      | '#' :: r => (r.dropWhile Text.isBlank).head?
      | r => r.head?
    found.or t.head?
  else t.head?

end Mode

end LineShell.Pattern
