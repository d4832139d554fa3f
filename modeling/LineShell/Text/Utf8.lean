import LineShell.Text.Basic

/-! UTF-8: the octets of a text, and reading octets back, either strictly or with every maximal
malformed stretch turned into one replacement character. -/

namespace LineShell

abbrev Bytes := List UInt8

namespace Utf8

def encodeChar (c : Char) : Bytes :=
  let n := c.toNat
  if n < 0x80 then [UInt8.ofNat n]
  else if n < 0x800 then [UInt8.ofNat (0xC0 + n / 64), UInt8.ofNat (0x80 + n % 64)]
  else if n < 0x10000 then
    [UInt8.ofNat (0xE0 + n / 4096), UInt8.ofNat (0x80 + n / 64 % 64), UInt8.ofNat (0x80 + n % 64)]
  else
    [UInt8.ofNat (0xF0 + n / 262144), UInt8.ofNat (0x80 + n / 4096 % 64),
      UInt8.ofNat (0x80 + n / 64 % 64), UInt8.ofNat (0x80 + n % 64)]

def encode (t : Text) : Bytes := t.flatMap encodeChar

/-- Where a decoder stands: between characters, or inside one. There the next octet has to lie
between low and high, and a number of further octets come after it. -/
inductive State
  | between
  | inside (further : Nat) (low high : UInt8) (value : Nat)
  deriving DecidableEq, Repr

/-- Reads the first octet of a character. Overlong forms, surrogates and values past the last
code point are excluded here, by the range allowed to the second octet. -/
def lead (b : UInt8) : Option (Text × State) :=
  if b < 0x80 then some ([Char.ofNat b.toNat], .between)
  else if b < 0xC2 then none
  else if b < 0xE0 then some ([], .inside 0 0x80 0xBF (b.toNat - 0xC0))
  else if b < 0xF0 then
    let low := if b = 0xE0 then 0xA0 else 0x80
    let high := if b = 0xED then 0x9F else 0xBF
    some ([], .inside 1 low high (b.toNat - 0xE0))
  else if b < 0xF5 then
    let low := if b = 0xF0 then 0x90 else 0x80
    let high := if b = 0xF4 then 0x8F else 0xBF
    some ([], .inside 2 low high (b.toNat - 0xF0))
  else none

def step (s : State) (b : UInt8) : Option (Text × State) :=
  match s with
  | .between => lead b
  | .inside further low high value =>
    if low ≤ b ∧ b ≤ high then
      let value := value * 64 + (b.toNat - 0x80)
      match further with
      | 0 => some ([Char.ofNat value], .between)
      | k + 1 => some ([], .inside k 0x80 0xBF value)
    else none

def replacement : Char := Char.ofNat 0xFFFD

/-- Reads one octet and mends what is malformed: an unfinished character is replaced, and the
octet that broke it off is read afresh. -/
def mend (s : State) (b : UInt8) : Text × State :=
  match step s b with
  | some r => r
  | none =>
    match s with
    | .between => ([replacement], .between)
    | .inside .. =>
      match lead b with
      | some (t, s) => (replacement :: t, s)
      | none => ([replacement, replacement], .between)

def lossyFrom : State → Bytes → Text
  | .between, [] => []
  | .inside .., [] => [replacement]
  | s, b :: r => (mend s b).1 ++ lossyFrom (mend s b).2 r

def lossy (b : Bytes) : Text := lossyFrom .between b

def decodeFrom : State → Bytes → Option Text
  | .between, [] => some []
  | .inside .., [] => none
  | s, b :: r =>
    match step s b with
    | some (t, s) => (decodeFrom s r).map (t ++ ·)
    | none => none

def decode? (b : Bytes) : Option Text := decodeFrom .between b

end Utf8

end LineShell
