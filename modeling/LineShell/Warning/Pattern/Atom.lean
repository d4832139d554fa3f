import LineShell.Warning.Pattern.Mode

/-! The smallest parts of a pattern. -/

namespace LineShell.Pattern

inductive Atom
  | literal (c : Char) (isOctet : Bool)
  | any
  | kind (negated : Bool)
  | edge (ofWord : Bool)
  deriving DecidableEq, Repr

namespace Atom

def isUsable (m : Mode) : Atom → Bool
  | .literal c isOctet => if m.unicode then !m.anyCase else !isOctet || c.toNat < 0x80
  | .any => m.unicode
  | .kind negated => !m.unicode && !negated
  | .edge ofWord => !ofWord || !m.unicode

def isMember (m : Mode) : Atom → Bool
  | .literal c _ => if m.unicode then !m.anyCase else c.toNat < 0x80
  | .kind negated => !m.unicode && !negated
  | _ => false

def isRange : Atom → Atom → Bool
  | .literal low _, .literal high _ => low ≤ high
  | _, _ => false

def controls : List (Char × Char) :=
  [('a', '\x07'), ('f', '\x0c'), ('n', '\n'), ('r', '\r'), ('t', '\t'), ('v', '\x0b')]

def hexDigit? (c : Char) : Option Nat :=
  if '0' ≤ c ∧ c ≤ '9' then some (c.toNat - '0'.toNat)
  else if 'a' ≤ c ∧ c ≤ 'f' then some (c.toNat - 'a'.toNat + 10)
  else if 'A' ≤ c ∧ c ≤ 'F' then some (c.toNat - 'A'.toNat + 10)
  else none

def readNumber (m : Mode) : Nat → Nat → Text → Option (Nat × Text)
  | 0, value, t => some (value, t)
  | digits + 1, value, t =>
    match m.skip t with
    | [] => none
    | c :: r =>
      match hexDigit? c with
      | some d => readNumber m digits (16 * value + d) r
      | none => none

def readCode (m : Mode) (digits : Nat) (t : Text) : Option (Atom × Text) :=
  match readNumber m digits 0 t with
  | some (n, r) => if n.isValidChar then some (.literal (Char.ofNat n) (digits == 2), r) else none
  | none => none

def readEscape (m : Mode) : Text → Option (Atom × Text)
  | [] => none
  | c :: r =>
    match c with
    | 'x' => readCode m 2 r
    | 'u' => readCode m 4 r
    | 'U' => readCode m 8 r
    | c =>
      if "dsw".toList.contains c then some (.kind false, r)
      else if "DSW".toList.contains c then some (.kind true, r)
      else if "Az".toList.contains c then some (.edge false, r)
      else if "bB<>".toList.contains c then some (.edge true, r)
      else if c.toNat < 0x80 && !c.isAlphanum then some (.literal c false, r)
      else (controls.lookup c).map fun control => (.literal control false, r)

def read (m : Mode) (c : Char) (t : Text) : Option (Atom × Text) :=
  match c with
  | '\\' => readEscape m t
  | '.' => some (.any, t)
  | '^' => some (.edge false, t)
  | '$' => some (.edge false, t)
  | c => some (.literal c false, t)

def readMember (m : Mode) : Text → Option (Atom × Text)
  | [] => none
  | '\\' :: r => readEscape m r
  | c :: r => some (.literal c false, r)

end Atom

end LineShell.Pattern
