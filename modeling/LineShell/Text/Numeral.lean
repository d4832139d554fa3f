import LineShell.Text.Basic

/-! Decimal numerals: one optional plus sign and at least one ASCII digit, up to a given limit. -/

namespace LineShell.Numeral

def digit? (c : Char) : Option Nat :=
  if '0' ≤ c ∧ c ≤ '9' then some (c.toNat - '0'.toNat) else none

def extend (value : Nat) : Text → Option Nat
  | [] => some value
  | c :: r =>
    match digit? c with
    | some d => extend (10 * value + d) r
    | none => none

def dropPlus : Text → Text
  | '+' :: r => r
  | t => t

/-- Reads a numeral whose value is at most the limit; leading zeros do not count against it. -/
def read? (limit : Nat) (t : Text) : Option Nat :=
  let digits := dropPlus t
  if digits.isEmpty then none
  else
    match extend 0 digits with
    | some n => if n ≤ limit then some n else none
    | none => none

def wordMax : Nat := Nat.pow 2 64 - 1

def statusMax : Nat := Nat.pow 2 31 - 1

end LineShell.Numeral
