/-! Text as a list of characters: blanks, trimming, words, lines and cutting. A blank is any
white-space character of Unicode, not only of ASCII. -/

namespace LineShell

abbrev Text := List Char

namespace Text

/-- The twenty-five characters with the Unicode property White_Space. -/
def isBlank (c : Char) : Bool :=
  let n := c.toNat
  (9 ≤ n && n ≤ 13) || n == 0x20 || n == 0x85 || n == 0xA0 || n == 0x1680 ||
    (0x2000 ≤ n && n ≤ 0x200A) || n == 0x2028 || n == 0x2029 || n == 0x202F || n == 0x205F ||
    n == 0x3000

def isNameChar (c : Char) : Bool :=
  c.isAlphanum || c == '_'

def trimStart (t : Text) : Text := t.dropWhile isBlank

def trimEnd : Text → Text
  | [] => []
  | c :: r =>
    match trimEnd r with
    | [] => if isBlank c then [] else [c]
    | kept => c :: kept

def trim (t : Text) : Text := trimEnd (trimStart t)

def leadingWord : Text → Text × List Text
  | [] => ([], [])
  | c :: r =>
    let (word, later) := leadingWord r
    if isBlank c then ([], if word.isEmpty then later else word :: later)
    else (c :: word, later)

def words (t : Text) : List Text :=
  let (word, later) := leadingWord t
  if word.isEmpty then later else word :: later

def firstWord (t : Text) : Text :=
  (trimStart t).takeWhile fun c => !isBlank c

def afterFirstWord (t : Text) : Text :=
  (trimStart t).dropWhile fun c => !isBlank c

def cutAt (separator : Char) : Text → Option (Text × Text)
  | [] => none
  | c :: r =>
    if c = separator then some ([], r)
    else (cutAt separator r).map fun (before, after) => (c :: before, after)

def dropCarriageReturn (t : Text) : Text :=
  if t.getLast? = some '\r' then t.dropLast else t

/-- Every piece but the last was ended by a line feed, and loses one carriage return before it;
the last one is a line only if it holds something. -/
def linesOfPieces : List Text → List Text
  | [] => []
  | [last] => if last.isEmpty then [] else [last]
  | piece :: next :: later => dropCarriageReturn piece :: linesOfPieces (next :: later)

def lines (t : Text) : List Text := linesOfPieces (List.splitOn '\n' t)

def unlines (lines : List Text) : Text := lines.flatMap (· ++ ['\n'])

def stripQuotes (t : Text) : Text :=
  match t with
  | q :: r =>
    if (q = '\'' ∨ q = '"') ∧ r.getLast? = some q then r.dropLast else t
  | [] => t

/-- Replaces a non-empty pattern wherever it occurs, from the left and without overlaps. -/
def replace (pattern new : Text) (t : Text) : Text := go 0 t
where
  go : Nat → Text → Text
    | _, [] => []
    | skip + 1, _ :: r => go skip r
    | 0, c :: r =>
      if pattern.isPrefixOf (c :: r) then new ++ go (pattern.length - 1) r else c :: go 0 r

def ofNat (n : Nat) : Text := (Nat.repr n).toList

def ofInt : Int → Text
  | .ofNat n => ofNat n
  | .negSucc n => '-' :: ofNat (n + 1)

def octetLength (t : Text) : Nat := t.foldr (fun c n => c.utf8Size + n) 0

def cutAtOffset : Nat → Text → Option (Text × Text)
  | 0, t => some ([], t)
  | _ + 1, [] => none
  | n + 1, c :: r =>
    if c.utf8Size ≤ n + 1 then
      (cutAtOffset (n + 1 - c.utf8Size) r).map fun (before, after) => (c :: before, after)
    else none

end Text

end LineShell
