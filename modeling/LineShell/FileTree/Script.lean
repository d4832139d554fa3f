import LineShell.Path

/-! The first line of a script, which names the program that carries it out. -/

namespace LineShell

structure ScriptLine where
  interpreter : Path
  argument : Option Bytes := none
  deriving DecidableEq, Repr

namespace ScriptLine

def shellPath : Path := .ofText "/bin/sh".toList

/-- How many octets of a file are looked at. A shorter file is filled up with zeros. -/
def window : Nat := 256

def isGap (b : UInt8) : Bool := b = 32 || b = 9

def isEnd (b : UInt8) : Bool := isGap b || b = 0

def trimGaps (b : Bytes) : Bytes := (b.reverse.dropWhile isGap).reverse

def cut? (line : Bytes) : Option ScriptLine :=
  match line.dropWhile isGap with
  | [] => none
  | b :: r =>
    let name := (b :: r).takeWhile (!isEnd ·)
    some {
      interpreter := ⟨name⟩
      argument := match (b :: r).drop name.length with
        | [] => none
        | 0 :: _ => none
        | gap => some ((gap.dropWhile isGap).takeWhile (· ≠ 0)) }

def readBody? (body : Bytes) : Option ScriptLine :=
  let line := body.takeWhile fun b => b ≠ 10 && b ≠ 0
  if (body.drop line.length).head? = some 10 then cut? (trimGaps line)
  else if (body.dropWhile isGap).any isEnd then cut? (trimGaps body.dropLast)
  else none

def read? (data : Bytes) : Option ScriptLine :=
  match (data ++ List.replicate window 0).take window with
  | 35 :: 33 :: body => readBody? body
  | _ => none

end ScriptLine

end LineShell
