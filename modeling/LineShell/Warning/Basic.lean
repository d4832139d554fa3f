import LineShell.Text.Numeral

/-! Warnings, filed under topics, and how severe what is let through may be. -/

namespace LineShell

inductive Topic
  | startupFile
  | shell
  deriving DecidableEq, Repr

def Topic.path : Topic → Text
  | startupFile => "hsh::core::config::loader".toList
  | shell => "hsh::shell".toList

structure Warning where
  topic : Topic
  message : Text
  deriving DecidableEq, Repr

namespace Warning

def isC1Control (c : Char) : Bool := 0x80 ≤ c.toNat && c.toNat ≤ 0x9F

def controls : List Char := ['\x07', '\x08', '\x0c', '\x1b', '\x7f']

def hexDigits (n : Nat) : Text := [Nat.digitChar (n / 16), Nat.digitChar (n % 16)]

def showChar (c : Char) : Text :=
  if controls.contains c then "\\x".toList ++ hexDigits c.toNat
  else if isC1Control c then "\\u\x7b".toList ++ hexDigits c.toNat ++ "\x7d".toList
  else [c]

def shown (w : Warning) : Text := w.message.flatMap showChar

end Warning

inductive Severity
  | off
  | error
  | warn
  | info
  | debug
  | trace
  deriving DecidableEq, Repr

namespace Severity

def all : List Severity := [.off, .error, .warn, .info, .debug, .trace]

def name : Severity → Text
  | .off => "off".toList
  | .error => "error".toList
  | .warn => "warn".toList
  | .info => "info".toList
  | .debug => "debug".toList
  | .trace => "trace".toList

def rank : Severity → Nat
  | .off => 0
  | .error => 1
  | .warn => 2
  | .info => 3
  | .debug => 4
  | .trace => 5

def read? (t : Text) : Option Severity :=
  let rank := Numeral.read? Numeral.wordMax t
  all.find? fun s => rank == some s.rank || t.map Char.toLower == s.name

end Severity

end LineShell
